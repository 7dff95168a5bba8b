import NetworkDriver.Library.Run
import NetworkDriver.Net.StreamTransport.Callbacks
import Mathlib.Algebra.BigOperators.Group.List.Basic
import Mathlib.Tactic.Cases

/-! # The write side: queue, iovecs and counter

`RepInv`: the iovecs describe the queued buffers one by one, and `num_enqueued_bytes_` is the number
of bytes queued. Enqueueing keeps it. A write of `n` bytes keeps it exactly if the write ends where a
queued buffer ends (`EndsBuffer`): the branch that cuts a buffer shrinks the buffer, but neither its
iovec nor `num_bytes` (`removeWritten_repInv_iff`). So a run keeps it exactly if all its writes
end there (`repInv_run_iff`). -/

namespace NetworkDriver.Net.StreamTransport.Queue

open NetworkDriver.Library.Vectors NetworkDriver.Library.Run
open NetworkDriver.Net.Types NetworkDriver.Net.StreamTransport.Model
open NetworkDriver.Net.StreamTransport.Callbacks StreamTransportBase

variable {M σ : Type}

/-! ### Sizes -/

/-- The number of bytes in use in a list of buffers. -/
def totalSize (q : List Vec) : ℕ := (q.map Vec.size).sum

@[simp] theorem totalSize_nil : totalSize [] = 0 := rfl

@[simp] theorem totalSize_cons (v : Vec) (q : List Vec) : totalSize (v :: q) = v.size + totalSize q := rfl

@[simp] theorem totalSize_append (q q' : List Vec) : totalSize (q ++ q') = totalSize q + totalSize q' := by
  simp [totalSize]

theorem totalSize_take_add_drop (q : List Vec) (j : ℕ) :
    totalSize (q.take j) + totalSize (q.drop j) = totalSize q := by
  rw [← totalSize_append, List.take_append_drop]

/-- **The write ends where a buffer ends**: `n` bytes are the first `j` buffers of the queue. -/
def EndsBuffer (q : List Vec) (n : ℕ) : Prop := ∃ j, n = totalSize (q.take j)

theorem endsBuffer_zero (q : List Vec) : EndsBuffer q 0 := ⟨0, by simp⟩

theorem EndsBuffer.of_cons {v : Vec} {q : List Vec} {n : ℕ} (h : EndsBuffer (v :: q) n) (hn : 0 < n) :
    v.size ≤ n ∧ EndsBuffer q (n - v.size) := by
  obtain ⟨j, hj⟩ := h
  rcases j with _ | j
  · simp at hj
    omega
  · rw [List.take_succ_cons, totalSize_cons] at hj
    exact ⟨by omega, j, by omega⟩

instance (q : List Vec) (n : ℕ) : Decidable (EndsBuffer q n) :=
  decidable_of_iff (∃ j < q.length + 1, n = totalSize (q.take j)) <| by
    constructor
    · rintro ⟨j, -, hj⟩
      exact ⟨j, hj⟩
    · rintro ⟨j, hj⟩
      refine ⟨min j q.length, by omega, ?_⟩
      rw [hj]
      rcases Nat.le_total j q.length with h | h
      · rw [Nat.min_eq_left h]
      · rw [Nat.min_eq_right h, List.take_of_length_le h, List.take_length]

/-! ### The invariant -/

/-- The iovec of a buffer: `(data, size)`. -/
def iovOf (v : Vec) : IoVec := ⟨v.data, v.size⟩

/-- **The representation of the queue.** -/
structure RepInv (t : StreamTransportBase M σ) : Prop where
  iovecs : t.iovecs = t.writeQueue.map iovOf
  count : t.numEnqueuedBytes = totalSize t.writeQueue

instance (t : StreamTransportBase M σ) : Decidable (RepInv t) :=
  decidable_of_iff (t.iovecs = t.writeQueue.map iovOf ∧ t.numEnqueuedBytes = totalSize t.writeQueue)
    ⟨fun h => ⟨h.1, h.2⟩, fun h => ⟨h.1, h.2⟩⟩

theorem map_iovOf_len (q : List Vec) : ((q.map iovOf).map IoVec.len).sum = totalSize q := by
  rw [List.map_map]
  rfl

theorem RepInv.offered {t : StreamTransportBase M σ} (h : RepInv t) :
    t.offered = totalSize t.writeQueue := by
  rw [StreamTransportBase.offered, h.iovecs, map_iovOf_len]

theorem repInv_fresh (m : M) (s : σ) (config : TransportConfig) : RepInv (fresh m s config) :=
  ⟨rfl, rfl⟩

theorem repInv_push {t : StreamTransportBase M σ} (h : RepInv t) (buf : Vec) : RepInv (t.push buf) := by
  refine ⟨?_, ?_⟩
  · simp [push, h.iovecs, iovOf]
  · simp [push, h.count]

theorem repInv_change {P : ReceivePolicy → Prop} (t t' : StreamTransportBase M σ) (hc : Change P t t')
    (h : RepInv t) : RepInv t' := by
  cases hc with
  | manager m => exact ⟨h.iovecs, h.count⟩
  | nextLayer s => exact ⟨h.iovecs, h.count⟩
  | configureNextRead p => exact ⟨h.iovecs, h.count⟩
  | pushNew bytes spare =>
    rw [pushNew_eq]
    refine repInv_push ?_ _
    exact ⟨h.iovecs, h.count⟩
  | pushCopy bytes =>
    rw [pushCopy_eq]
    refine repInv_push ?_ _
    exact ⟨h.iovecs, h.count⟩

/-! ### The loop that removes written data -/

theorem returnBuffer_eq (t : StreamTransportBase M σ) (buf : Vec) :
    ∃ l buf', l.Sublist [buf] ∧
      t.returnBuffer buf = (buf', { t with bufferCache := t.bufferCache ++ l }) := by
  unfold returnBuffer
  split_ifs
  · exact ⟨[buf], Vec.null, List.Sublist.refl _, rfl⟩
  · exact ⟨[], buf, List.nil_sublist _, by rw [List.append_nil]⟩

/-- A buffer within the written bytes is emptied; what is left of it may go to the cache. -/
theorem removeStep_full {n : ℕ} {v : Vec} (h : v.size ≤ n) (t : StreamTransportBase M σ) :
    ∃ l v', l.Sublist [{ v with size := 0 }] ∧
      removeStep n v t = (n - v.size, 1, v', { t with bufferCache := t.bufferCache ++ l }) := by
  obtain ⟨l, v', hl, he⟩ := returnBuffer_eq t { v with size := 0 }
  refine ⟨l, v', hl, ?_⟩
  simp only [removeStep, if_pos h, he, if_true]

/-- A buffer beyond the written bytes is cut, and `num_bytes` stays. -/
theorem removeStep_cut {n : ℕ} {v : Vec} (h : n < v.size) (t : StreamTransportBase M σ) :
    removeStep n v t =
      (n, 0, (t.memory.eraseFront v n).2, { t with memory := (t.memory.eraseFront v n).1 }) := by
  have hs : (t.memory.eraseFront v n).2.size ≠ 0 := by
    simp only [Memory.eraseFront]
    omega
  simp only [removeStep, if_neg (Nat.not_le.mpr h), if_neg hs]

/-- The buffers once they are emptied. -/
def cleared (q : List Vec) : List Vec := q.map fun v => { v with size := 0 }

/-- **A write that ends where a buffer ends**: the buffers written are dropped, the others stay as
they are, and the cache gains only emptied buffers. -/
theorem removeLoop_endsBuffer (q : List Vec) : ∀ (n : ℕ) (t : StreamTransportBase M σ), 0 < n →
    EndsBuffer q n → ∃ bufs p r l, q = p ++ r ∧ n = totalSize p ∧ l.Sublist (cleared p) ∧
      bufs.drop p.length = r ∧
      removeLoop n q t = (bufs, p.length, { t with bufferCache := t.bufferCache ++ l }) := by
  induction q with
  | nil =>
    rintro n t hn ⟨j, rfl⟩
    simp at hn
  | cons v q ih =>
    intro n t hn he
    obtain ⟨hv, he⟩ := he.of_cons hn
    obtain ⟨l, v', hl, hs⟩ := removeStep_full hv t
    rcases Nat.eq_zero_or_pos (n - v.size) with h0 | h0
    · refine ⟨v' :: q, [v], q, l, rfl, by simp; omega, hl, rfl, ?_⟩
      simp only [removeLoop, hs, h0, if_true, List.length_singleton]
    · obtain ⟨bufs, p, r, l', rfl, hp, hl', hd, hr⟩ :=
        ih (n - v.size) { t with bufferCache := t.bufferCache ++ l } h0 he
      refine ⟨v' :: bufs, v :: p, r, l ++ l', rfl, ?_, hl.append hl', by simpa using hd, ?_⟩
      · rw [totalSize_cons]
        omega
      · simp only [removeLoop, hs, if_neg (Nat.ne_of_gt h0), hr, List.append_assoc, List.length_cons,
          Nat.add_comm 1 p.length]

/-- The loop changes the memory and the cache, besides the buffers of the queue. -/
theorem removeLoop_frame (q : List Vec) : ∀ (n : ℕ) (t : StreamTransportBase M σ),
    ∃ memory cache, (removeLoop n q t).2.2 = { t with memory := memory, bufferCache := cache } := by
  induction q with
  | nil => exact fun n t => ⟨t.memory, t.bufferCache, rfl⟩
  | cons v q ih =>
    intro n t
    have hstep : ∃ memory cache,
        (removeStep n v t).2.2.2 = { t with memory := memory, bufferCache := cache } := by
      rcases Nat.lt_or_ge n v.size with h | h
      · rw [removeStep_cut h]
        exact ⟨_, t.bufferCache, rfl⟩
      · obtain ⟨l, v', -, hs⟩ := removeStep_full h t
        rw [hs]
        exact ⟨t.memory, _, rfl⟩
    obtain ⟨memory, cache, hstep⟩ := hstep
    unfold removeLoop
    dsimp only
    split_ifs
    · exact ⟨memory, cache, hstep⟩
    · obtain ⟨memory', cache', hrest⟩ := ih (removeStep n v t).1 (removeStep n v t).2.2.2
      exact ⟨memory', cache', by rw [hrest, hstep]⟩

/-- **A write result changes the write side only.** -/
theorem handleWriteResult_frame (writeRes : ℤ) (temporary : Bool) (t : StreamTransportBase M σ) :
    ∃ memory cache count queue iovecs, (t.handleWriteResult writeRes temporary).2 =
      { t with
        memory := memory
        bufferCache := cache
        numEnqueuedBytes := count
        writeQueue := queue
        iovecs := iovecs } := by
  unfold handleWriteResult removeWrittenDataFromQueue
  split_ifs
  · exact ⟨_, _, _, _, _, rfl⟩
  · exact ⟨_, _, _, _, _, rfl⟩
  · exact ⟨_, _, _, _, _, rfl⟩
  · obtain ⟨memory, cache, hr⟩ := removeLoop_frame t.writeQueue writeRes.toNat
      { t with numEnqueuedBytes := subSize t.numEnqueuedBytes writeRes.toNat }
    dsimp only
    rw [hr]
    exact ⟨_, _, _, _, _, rfl⟩

/-! ### A write result -/

/-- **A write keeps the representation exactly if it ends where a buffer ends.** -/
theorem removeWritten_repInv_iff {t : StreamTransportBase M σ} (h : RepInv t) {n : ℕ}
    (hn : n ≤ t.offered) :
    RepInv (t.removeWrittenDataFromQueue n) ↔ EndsBuffer t.writeQueue n := by
  rw [h.offered] at hn
  unfold removeWrittenDataFromQueue
  split_ifs with h0
  · subst h0
    exact ⟨fun _ => endsBuffer_zero _, fun _ => h⟩
  have hc : subSize t.numEnqueuedBytes n = totalSize t.writeQueue - n := by
    rw [h.count, subSize_of_le hn]
  constructor
  · intro hr
    -- the iovecs left over are the old ones, so their lengths are a tail of the old sizes
    obtain ⟨memory, cache, hframe⟩ := removeLoop_frame t.writeQueue n
      { t with numEnqueuedBytes := subSize t.numEnqueuedBytes n }
    rcases hl : removeLoop n t.writeQueue { t with numEnqueuedBytes := subSize t.numEnqueuedBytes n }
      with ⟨bufs, e, t'⟩
    simp only [hl] at hr hframe
    subst hframe
    have hlen := hr.offered
    have hcount := hr.count
    simp only [StreamTransportBase.offered] at hlen hcount
    rw [h.iovecs, ← List.map_drop, map_iovOf_len] at hlen
    rw [hc] at hcount
    have := totalSize_take_add_drop t.writeQueue e
    exact ⟨e, by omega⟩
  · intro he
    obtain ⟨bufs, p, r, l, hq, hp, -, hd, hr⟩ := removeLoop_endsBuffer t.writeQueue n
      { t with numEnqueuedBytes := subSize t.numEnqueuedBytes n } (Nat.pos_of_ne_zero h0) he
    simp only [hr]
    refine ⟨?_, ?_⟩
    · rw [hd, h.iovecs, hq, List.map_append, List.drop_left' (by simp)]
    · rw [hd, hc, hq, totalSize_append]
      show totalSize p + totalSize r - n = totalSize r
      omega

theorem handleWriteResult_snd (writeRes : ℤ) (temporary : Bool) (t : StreamTransportBase M σ) :
    (t.handleWriteResult writeRes temporary).2 =
      if writeRes < 0 then t else t.removeWrittenDataFromQueue writeRes.toNat := by
  unfold handleWriteResult
  split_ifs <;> rfl

/-! ### Runs -/

/-- What happens to the write side of a transport. -/
inductive WriteSideEvent where
  | enqueue (bytes : List UInt8)
  | enqueueBuffer (bytes spare : List UInt8)
  | fetchMoreData
  | handleWriteResult (writeRes : ℤ) (temporary : Bool)

def step (reg : Register M σ) (app : NextLayer σ) (t : StreamTransportBase M σ) :
    WriteSideEvent → StreamTransportBase M σ
  | .enqueue bytes => t.enqueue reg bytes
  | .enqueueBuffer bytes spare => t.enqueueBuffer reg bytes spare
  | .fetchMoreData => (t.fetchMoreData reg app).2
  | .handleWriteResult writeRes temporary => (t.handleWriteResult writeRes temporary).2

/-- What the property says of a write result, the errors excepted. -/
def OnResult (C : StreamTransportBase M σ → ℕ → Prop) (t : StreamTransportBase M σ) :
    WriteSideEvent → Prop
  | .handleWriteResult writeRes _ => 0 ≤ writeRes → C t writeRes.toNat
  | _ => True

/-- A write result is at most the sum of the iovec lengths offered. -/
abbrev Offered : StreamTransportBase M σ → WriteSideEvent → Prop := OnResult fun t n => n ≤ t.offered

/-- The subtraction from `num_enqueued_bytes_` does not wrap. -/
abbrev NoWrap : StreamTransportBase M σ → WriteSideEvent → Prop :=
  OnResult fun t n => n ≤ t.numEnqueuedBytes

/-- Every write ends where a queued buffer ends. -/
abbrev EndsBuffers : StreamTransportBase M σ → WriteSideEvent → Prop :=
  OnResult fun t n => EndsBuffer t.writeQueue n

theorem step_repInv_iff (r : Registration (fun _ => True) M σ) (app : NextLayer σ)
    (t : StreamTransportBase M σ) (e : WriteSideEvent) (h : RepInv t) (ho : Offered t e) :
    RepInv (step r.register app t e) ↔ EndsBuffers t e := by
  have hkeeps : ∀ {t' : StreamTransportBase M σ}, Changes (fun _ => True) t t' → RepInv t' :=
    fun hc => hc.keeps repInv_change h
  cases e with
  | enqueue bytes =>
    exact iff_of_true (hkeeps (call_changes r t (Call.allowed_true (.enqueue bytes)))) trivial
  | enqueueBuffer bytes spare =>
    exact iff_of_true (hkeeps (call_changes r t (Call.allowed_true (.enqueueBuffer bytes spare)))) trivial
  | fetchMoreData =>
    exact iff_of_true (hkeeps (fetchMoreData_changes r (NextLayer.produces_true app) t)) trivial
  | handleWriteResult writeRes temporary =>
    rw [step, handleWriteResult_snd]
    split_ifs with hneg
    · exact iff_of_true h fun h0 => absurd hneg (Int.not_lt.mpr h0)
    · have h0 := Int.not_lt.mp hneg
      rw [removeWritten_repInv_iff h (ho h0)]
      exact ⟨fun he _ => he, fun he => he h0⟩

/-- **The representation of the write side over runs.** In a run from a fresh transport whose write
results are at most what was offered, the iovecs describe the queued buffers in every state, the
counter is the number of bytes queued, and no subtraction wraps, exactly if every write ends where a
queued buffer ends. -/
theorem repInv_run_iff (r : Registration (fun _ => True) M σ) (app : NextLayer σ) (m : M) (s : σ)
    (config : TransportConfig) (es : List WriteSideEvent)
    (hoff : Along (step r.register app) Offered (fresh m s config) es) :
    (Always (step r.register app) RepInv (fresh m s config) es ∧
        Along (step r.register app) NoWrap (fresh m s config) es) ↔
      Along (step r.register app) EndsBuffers (fresh m s config) es := by
  rw [← always_iff_along (step_repInv_iff r app) (repInv_fresh m s config) hoff]
  refine ⟨And.left, fun h => ⟨h, h.along ?_ hoff⟩⟩
  -- what is offered is what the counter says
  intro t e ht ho
  cases e with
  | handleWriteResult writeRes temporary =>
    intro h0
    rw [ht.count, ← ht.offered]
    exact ho h0
  | _ => trivial

/-- A next layer without data and without calls. -/
def idleLayer : NextLayer Unit where
  init s := (s, [], true)
  hasMoreData _ := false
  produce s := (s, [], .ok)
  consume s _ := (s, [], .ok)
  handleTimeout s _ := (s, [], .ok)

theorem repInv_run_iff_two_buffers :
    (Always (step eventRegister idleLayer) RepInv (fresh Operation.none () {})
          [.enqueue [1, 2], .enqueue [3, 4, 5], .handleWriteResult 2 false] ∧
        Along (step eventRegister idleLayer) NoWrap (fresh Operation.none () {})
          [.enqueue [1, 2], .enqueue [3, 4, 5], .handleWriteResult 2 false]) ↔
      Along (step eventRegister idleLayer) EndsBuffers (fresh Operation.none () {})
        [.enqueue [1, 2], .enqueue [3, 4, 5], .handleWriteResult 2 false] :=
  repInv_run_iff (eventRegistration Unit) idleLayer Operation.none () {} _
    ⟨trivial, trivial, fun _ => by decide, trivial⟩

/-- Two of the four bytes of a buffer are written: its iovec keeps the length `4`. -/
theorem repInv_cut_buffer :
    Along (step eventRegister idleLayer) Offered (fresh Operation.none () {})
        [.enqueue [1, 2, 3, 4], .handleWriteResult 2 false] ∧
      ¬ Always (step eventRegister idleLayer) RepInv (fresh Operation.none () {})
        [.enqueue [1, 2, 3, 4], .handleWriteResult 2 false] := by
  refine ⟨⟨trivial, fun _ => by decide, trivial⟩, fun h => ?_⟩
  have hcut := h.last
  revert hcut
  decide

end NetworkDriver.Net.StreamTransport.Queue
