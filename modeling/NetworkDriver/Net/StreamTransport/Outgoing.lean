import NetworkDriver.Net.StreamTransport.Queue

/-! # The outgoing bytes of the event-driven transport

`Faithful`: the bytes the kernel took so far are a prefix of the bytes enqueued, and the queue holds
exactly the rest. The kernel reads the memory the iovecs describe, not the buffers, so the two have to
be kept apart: after a write that ends inside the last buffer, the buffer is shorter than its iovec
(`staleIov`), and the memory behind its bytes still holds bytes that were written before.

`GoodWrite` is the condition on a write: the iovecs are exact, or the write stays in the first buffer;
and it ends where a buffer ends, or inside the last one. `sound_write` is the step,
`outgoing_faithful` the run. -/

namespace NetworkDriver.Net.StreamTransport.Outgoing

open NetworkDriver.Library.Vectors NetworkDriver.Library.Run
open NetworkDriver.Net.Types NetworkDriver.Net.StreamTransport.Model
open NetworkDriver.Net.StreamTransport.Callbacks NetworkDriver.Net.StreamTransport.Queue
open StreamTransportBase

variable {M σ : Type}

/-- The bytes still in `write_queue_`, in order. -/
def queued (t : StreamTransportBase M σ) : List UInt8 := t.writeQueue.flatMap t.memory.bytes

/-- **Nothing is lost, duplicated or reordered.** -/
def Faithful (t : StreamTransportBase M σ) : Prop :=
  t.trace.taken <+: t.trace.enqueued ∧ t.trace.taken ++ queued t = t.trace.enqueued

instance (t : StreamTransportBase M σ) : Decidable (Faithful t) := by unfold Faithful; infer_instance

/-- The iovecs of a queue whose first buffer is `extra` bytes shorter than its iovec says. -/
def staleIov (extra : ℕ) : List Vec → List IoVec
  | [] => []
  | v :: q => ⟨v.data, v.size + extra⟩ :: q.map iovOf

/-- The invariant of good runs. -/
structure Sound (t : StreamTransportBase M σ) : Prop where
  wf : t.memory.Wf
  valid : ∀ v ∈ t.writeQueue ++ t.bufferCache, t.memory.Valid v
  separate : Separate (t.writeQueue ++ t.bufferCache)
  iovecs : ∃ extra, t.iovecs = staleIov extra t.writeQueue
  rest : t.trace.taken ++ queued t = t.trace.enqueued

theorem Sound.faithful {t : StreamTransportBase M σ} (h : Sound t) : Faithful t :=
  ⟨⟨queued t, h.rest⟩, h.rest⟩

theorem sound_fresh (m : M) (s : σ) (config : TransportConfig) : Sound (fresh m s config) :=
  ⟨Memory.wf_empty, by simp [fresh], List.Pairwise.nil, ⟨0, rfl⟩, rfl⟩

/-! ### Enqueueing -/

theorem staleIov_zero (q : List Vec) : staleIov 0 q = q.map iovOf := by
  cases q <;> rfl

theorem staleIov_append (extra : ℕ) (q : List Vec) (v : Vec) :
    ∃ extra', staleIov extra q ++ [iovOf v] = staleIov extra' (q ++ [v]) := by
  cases q with
  | nil => exact ⟨0, rfl⟩
  | cons w q => exact ⟨extra, by simp [staleIov]⟩

/-- A buffer in memory that shares no block with the queue or the cache is pushed. -/
theorem sound_push {t : StreamTransportBase M σ} (h : Sound t) {buf : Vec}
    (hv : t.memory.Valid buf) (hd : ∀ v ∈ t.writeQueue ++ t.bufferCache, Memory.Apart buf v) :
    Sound (t.push buf) := by
  have hperm : (buf :: (t.writeQueue ++ t.bufferCache)).Perm
      (t.writeQueue ++ [buf] ++ t.bufferCache) := by
    rw [List.append_assoc]
    exact List.perm_middle.symm
  obtain ⟨extra, hi⟩ := h.iovecs
  refine ⟨h.wf, ?_, ?_, ?_, ?_⟩
  · intro v hmem
    rcases List.mem_cons.mp (hperm.mem_iff.mpr hmem) with rfl | hmem
    · exact hv
    · exact h.valid v hmem
  · exact Separate.perm (List.pairwise_cons.mpr ⟨hd, h.separate⟩) hperm
  · obtain ⟨extra', he⟩ := staleIov_append extra t.writeQueue buf
    refine ⟨extra', ?_⟩
    show t.iovecs ++ [iovOf buf] = staleIov extra' (t.writeQueue ++ [buf])
    rw [hi, he]
  · have := h.rest
    simp only [queued] at this
    simp only [push, queued, List.flatMap_append, List.flatMap_cons, List.flatMap_nil, List.append_nil]
    rw [← List.append_assoc, this]

/-- Changing memory and cache keeps soundness if the queue keeps its bytes. -/
theorem Sound.with_memory {t : StreamTransportBase M σ} (h : Sound t) {m : Memory} {cache : List Vec}
    (hwf : m.Wf) (hsub : cache.Sublist t.bufferCache)
    (hkeep : ∀ v ∈ t.writeQueue ++ cache, m.bytes v = t.memory.bytes v ∧ m.Valid v) :
    Sound { t with memory := m, bufferCache := cache } := by
  have hq : queued { t with memory := m, bufferCache := cache } = queued t := by
    simp only [queued, List.flatMap_def]
    congr 1
    exact List.map_congr_left fun v hv => (hkeep v (List.mem_append_left _ hv)).1
  refine ⟨hwf, fun v hv => (hkeep v hv).2, ?_, h.iovecs, ?_⟩
  · exact h.separate.sublist ((List.Sublist.refl _).append hsub)
  · rw [hq]
    exact h.rest

theorem sound_pushNew {t : StreamTransportBase M σ} (h : Sound t) (bytes spare : List UInt8) :
    Sound (t.pushNew bytes spare) := by
  rw [pushNew_eq]
  have hkeep : ∀ v ∈ t.writeQueue ++ t.bufferCache,
      (t.memory.alloc bytes spare).1.bytes v = t.memory.bytes v ∧
        (t.memory.alloc bytes spare).1.Valid v := fun v hv =>
    ⟨Memory.bytes_alloc_of_valid (h.valid v hv) _ _, Memory.valid_alloc_of_valid (h.valid v hv) _ _⟩
  have h' := h.with_memory (Memory.wf_alloc h.wf bytes spare) (List.Sublist.refl _) hkeep
  refine sound_push h' (Memory.valid_alloc h.wf _ _) ?_
  intro v hv he
  have hlt := (h.valid v hv).lt
  rcases Memory.alloc_data t.memory bytes spare with h0 | h0
  · exact h0
  · omega

theorem sound_pushCopy {t : StreamTransportBase M σ} (h : Sound t) (bytes : List UInt8) :
    Sound (t.pushCopy bytes) := by
  rw [pushCopy_eq]
  -- the buffer taken from the cache, or the null vector, shares no block with what stays
  have hbuf : t.memory.Valid (t.bufferCache.headD Vec.null) ∧
      ∀ v ∈ t.writeQueue ++ t.bufferCache.tail, Memory.Apart (t.bufferCache.headD Vec.null) v := by
    rcases hc : t.bufferCache with _ | ⟨buf, rest⟩
    · exact ⟨Memory.valid_null h.wf, fun v _ _ => rfl⟩
    · have hsep := h.separate
      rw [hc] at hsep
      have hperm : (t.writeQueue ++ buf :: rest).Perm (buf :: (t.writeQueue ++ rest)) :=
        List.perm_middle
      exact ⟨h.valid buf (by simp [hc]), (List.pairwise_cons.mp (hsep.perm hperm)).1⟩
  obtain ⟨hbv, hba⟩ := hbuf
  generalize t.bufferCache.headD Vec.null = buf at hbv hba
  have hvalid : ∀ v ∈ t.writeQueue ++ t.bufferCache.tail, t.memory.Valid v := fun v hv =>
    h.valid v (((List.Sublist.refl _).append (List.tail_sublist _)).subset hv)
  obtain ⟨hwf, hnv, -, -, hdata⟩ := Memory.assign_self h.wf hbv bytes
  have h' := h.with_memory hwf (List.tail_sublist _) fun v hv =>
    Memory.assign_of_apart h.wf (hvalid v hv) (hba v hv) bytes
  refine sound_push h' hnv fun v hv he => ?_
  rcases hdata with h0 | h0 | h0
  · exact h0
  · rw [h0] at he ⊢
    exact hba v hv he
  · have := (hvalid v hv).lt
    omega

theorem sound_change {P : ReceivePolicy → Prop} (t t' : StreamTransportBase M σ) (hc : Change P t t')
    (h : Sound t) : Sound t' := by
  cases hc with
  | manager m => exact ⟨h.wf, h.valid, h.separate, h.iovecs, h.rest⟩
  | nextLayer s => exact ⟨h.wf, h.valid, h.separate, h.iovecs, h.rest⟩
  | configureNextRead p => exact ⟨h.wf, h.valid, h.separate, h.iovecs, h.rest⟩
  | pushNew bytes spare => exact sound_pushNew h bytes spare
  | pushCopy bytes => exact sound_pushCopy h bytes

/-! ### Removing what was written -/

/-- The write ends inside the last buffer. -/
def InLast (q : List Vec) (n : ℕ) : Prop := totalSize q.dropLast < n ∧ n < totalSize q

theorem InLast.split {q : List Vec} {n : ℕ} (h : InLast q n) :
    ∃ p v, q = p ++ [v] ∧ totalSize p < n ∧ n < totalSize p + v.size := by
  obtain ⟨h₁, h₂⟩ := h
  rcases List.eq_nil_or_concat q with rfl | ⟨p, v, rfl⟩
  · simp at h₂
  · rw [List.concat_eq_append] at h₁ h₂ ⊢
    rw [List.dropLast_concat] at h₁
    rw [totalSize_append, totalSize_cons, totalSize_nil] at h₂
    exact ⟨p, v, rfl, h₁, h₂⟩

/-- **A write that ends inside the last buffer** cuts it, and drops the buffers before. -/
theorem removeLoop_inLast (v : Vec) (p : List Vec) : ∀ (n : ℕ) (t : StreamTransportBase M σ),
    totalSize p < n → n < totalSize p + v.size → ∃ bufs l, removeLoop n (p ++ [v]) t =
        (bufs, p.length,
          { t with
            memory := (t.memory.eraseFront v (n - totalSize p)).1
            bufferCache := t.bufferCache ++ l }) ∧
      bufs.drop p.length = [(t.memory.eraseFront v (n - totalSize p)).2] ∧
      l.Sublist (cleared p) := by
  induction p with
  | nil =>
    intro n t h₁ h₂
    rw [totalSize_nil] at h₁ h₂
    refine ⟨[(t.memory.eraseFront v n).2], [], ?_, rfl, List.Sublist.refl _⟩
    have hn : n ≠ 0 := by omega
    simp only [List.nil_append, removeLoop, removeStep_cut (show n < v.size by omega), if_neg hn,
      totalSize_nil, Nat.sub_zero, List.append_nil, List.length_nil]
  | cons w p ih =>
    intro n t h₁ h₂
    rw [totalSize_cons] at h₁ h₂
    obtain ⟨l, w', hl, hs⟩ := removeStep_full (show w.size ≤ n by omega) t
    obtain ⟨bufs, l', hr, hd, hl'⟩ :=
      ih (n - w.size) { t with bufferCache := t.bufferCache ++ l } (by omega) (by omega)
    have hn : n - w.size ≠ 0 := by omega
    refine ⟨w' :: bufs, l ++ l', ?_, ?_, hl.append hl'⟩
    · simp only [List.cons_append, removeLoop, hs, if_neg hn, hr, List.append_assoc, totalSize_cons,
        Nat.sub_sub, List.length_cons, Nat.add_comm 1 p.length]
    · rw [List.length_cons, List.drop_succ_cons, hd, totalSize_cons, Nat.sub_sub]

theorem staleIov_drop (extra j : ℕ) (q : List Vec) :
    ∃ extra', (staleIov extra q).drop j = staleIov extra' (q.drop j) := by
  rcases j with _ | j
  · exact ⟨extra, rfl⟩
  · refine ⟨0, ?_⟩
    cases q with
    | nil => rfl
    | cons v q => rw [List.drop_succ_cons, staleIov_zero, List.map_drop]; rfl

/-- What is emptied and goes to the cache is separate from what stays. -/
theorem separate_cleared {p r cache l : List Vec} (h : Separate (p ++ r ++ cache))
    (hl : l.Sublist (cleared p)) : Separate (r ++ (cache ++ l)) := by
  have hperm : (p ++ r ++ cache).Perm (r ++ (cache ++ p)) := by
    rw [List.append_assoc, ← List.append_assoc r cache p]
    exact List.perm_append_comm
  have hsep : Separate (r ++ (cache ++ cleared p)) := by
    refine (h.perm hperm).of_data ?_
    simp only [cleared, List.map_append, List.map_map]
    rfl
  exact hsep.sublist ((List.Sublist.refl r).append ((List.Sublist.refl cache).append hl))

theorem valid_cleared {m : Memory} {p r cache l : List Vec} (h : ∀ v ∈ p ++ r ++ cache, m.Valid v)
    (hl : l.Sublist (cleared p)) : ∀ v ∈ r ++ (cache ++ l), m.Valid v := by
  intro v hv
  rcases List.mem_append.mp hv with hv | hv
  · exact h v (by simp [hv])
  rcases List.mem_append.mp hv with hv | hv
  · exact h v (by simp [hv])
  · obtain ⟨w, hw, rfl⟩ := List.mem_map.mp (hl.subset hv)
    exact ⟨(h w (by simp [hw])).lt, Nat.zero_le _⟩

theorem length_queued {m : Memory} {q : List Vec} (h : ∀ v ∈ q, m.Valid v) :
    (q.flatMap m.bytes).length = totalSize q := by
  rw [List.length_flatMap, totalSize]
  congr 1
  exact List.map_congr_left fun v hv => Memory.length_bytes (h v hv)

/-- The front part `p` of the queue is written: its buffers go, and some of them to the cache. -/
theorem sound_dropped {t : StreamTransportBase M σ} (h : Sound t) {p r l : List Vec}
    (hq : t.writeQueue = p ++ r) (hl : l.Sublist (cleared p)) (count : ℕ) :
    Sound { t with
      writeQueue := r
      iovecs := t.iovecs.drop p.length
      bufferCache := t.bufferCache ++ l
      numEnqueuedBytes := count
      trace := { t.trace with taken := t.trace.taken ++ p.flatMap t.memory.bytes } } := by
  have hvalid := h.valid
  have hsep := h.separate
  have hrest := h.rest
  obtain ⟨extra, hi⟩ := h.iovecs
  rw [hq] at hvalid hsep hi
  simp only [queued, hq, List.flatMap_append] at hrest
  refine ⟨h.wf, valid_cleared hvalid hl, separate_cleared hsep hl, ?_, ?_⟩
  · obtain ⟨extra', he⟩ := staleIov_drop extra p.length (p ++ r)
    rw [List.drop_left] at he
    exact ⟨extra', by rw [hi, he]⟩
  · rw [← List.append_assoc] at hrest
    exact hrest

/-- The first `n` bytes of the first buffer are written: the buffer is cut, and its iovec is not. -/
theorem sound_cut {t : StreamTransportBase M σ} (h : Sound t) {v : Vec} {r : List Vec} {n : ℕ}
    (hq : t.writeQueue = v :: r) (hn : n ≤ v.size) :
    Sound { t with
      memory := (t.memory.eraseFront v n).1
      writeQueue := (t.memory.eraseFront v n).2 :: r
      trace := { t.trace with taken := t.trace.taken ++ (t.memory.bytes v).take n } } := by
  have hvalid := h.valid
  have hsep := h.separate
  have hrest := h.rest
  obtain ⟨extra, hi⟩ := h.iovecs
  rw [hq] at hvalid hsep hi
  simp only [queued, hq, List.flatMap_cons] at hrest
  obtain ⟨hwf, hev, heb⟩ := Memory.eraseFront_self h.wf (hvalid v (by simp)) n
  have hkeep : ∀ w ∈ r ++ t.bufferCache, (t.memory.eraseFront v n).1.bytes w = t.memory.bytes w ∧
      (t.memory.eraseFront v n).1.Valid w := fun w hw =>
    Memory.eraseFront_of_apart h.wf (hvalid w (List.mem_cons_of_mem _ hw))
      ((List.pairwise_cons.mp hsep).1 w hw) n
  refine ⟨hwf, ?_, hsep.of_data rfl, ⟨n + extra, ?_⟩, ?_⟩
  · intro w hw
    rcases List.mem_cons.mp hw with rfl | hw
    · exact hev
    · exact (hkeep w hw).2
  · simp only [hi, staleIov, Memory.eraseFront]
    rw [← Nat.add_assoc, Nat.sub_add_cancel hn]
  · have hr : r.flatMap (t.memory.eraseFront v n).1.bytes = r.flatMap t.memory.bytes := by
      simp only [List.flatMap_def]
      congr 1
      exact List.map_congr_left fun w hw => (hkeep w (List.mem_append_left _ hw)).1
    simp only [queued, List.flatMap_cons, heb, hr]
    rw [List.append_assoc, ← List.append_assoc ((t.memory.bytes v).take n), List.take_append_drop]
    exact hrest

/-- The first bytes of the queue, if they are those of its front part `p` and `k` more. -/
theorem take_queued {m : Memory} {p : List Vec} (r : List Vec) (h : ∀ v ∈ p, m.Valid v) (k : ℕ) :
    ((p ++ r).flatMap m.bytes).take (totalSize p + k) =
      p.flatMap m.bytes ++ (r.flatMap m.bytes).take k := by
  rw [List.flatMap_append, ← length_queued h, List.take_length_add_append]

/-- The kernel took the first `n` bytes of the queue, and the transport removes them. -/
theorem sound_removeWritten {t : StreamTransportBase M σ} (h : Sound t) {n : ℕ}
    (hn : EndsBuffer t.writeQueue n ∨ InLast t.writeQueue n) :
    Sound (removeWrittenDataFromQueue n
      { t with trace := { t.trace with taken := t.trace.taken ++ (queued t).take n } }) := by
  have hvalid : ∀ v ∈ t.writeQueue, t.memory.Valid v := fun v hv => h.valid v (by simp [hv])
  unfold removeWrittenDataFromQueue
  split_ifs with h0
  · subst h0
    exact ⟨h.wf, h.valid, h.separate, h.iovecs, by simpa [queued] using h.rest⟩
  rcases hn with hn | hn
  · obtain ⟨bufs, p, r, l, hq, rfl, hl, hd, hr⟩ := removeLoop_endsBuffer t.writeQueue n
      { t with
        numEnqueuedBytes := subSize t.numEnqueuedBytes n
        trace := { t.trace with taken := t.trace.taken ++ (queued t).take n } }
      (Nat.pos_of_ne_zero h0) hn
    have hp : ∀ v ∈ p, t.memory.Valid v := fun v hv => hvalid v (by simp [hq, hv])
    have htake := take_queued r hp 0
    rw [Nat.add_zero, List.take_zero, List.append_nil, ← hq] at htake
    have h' := sound_dropped h hq hl (subSize t.numEnqueuedBytes (totalSize p))
    simp only [hr]
    simp only [hd, queued, htake]
    exact h'
  · obtain ⟨p, v, hq, h₁, h₂⟩ := hn.split
    obtain ⟨bufs, l, hr, hd, hl⟩ := removeLoop_inLast v p n
      { t with
        numEnqueuedBytes := subSize t.numEnqueuedBytes n
        trace := { t.trace with taken := t.trace.taken ++ (queued t).take n } } h₁ h₂
    have hp : ∀ v ∈ p, t.memory.Valid v := fun v hv => hvalid v (by simp [hq, hv])
    have htake := take_queued [v] hp (n - totalSize p)
    rw [Nat.add_sub_of_le (Nat.le_of_lt h₁), ← hq, List.flatMap_singleton] at htake
    -- the buffers before the last one go, and then the last one is cut
    have h' := sound_cut (sound_dropped h hq hl (subSize t.numEnqueuedBytes n))
      (n := n - totalSize p) rfl (by omega)
    rw [← hq] at hr
    simp only [hr]
    simp only [hd, queued, htake]
    simpa only [List.append_assoc] using h'

/-! ### A write -/

/-- **The condition on a write of `n` bytes.** The kernel reads what is queued: all iovecs are
exact, or it stays in the first buffer. The write ends where a buffer ends, or inside the last one.
And the result fits an `int`. -/
structure GoodWrite (t : StreamTransportBase M σ) (n : ℕ) : Prop where
  small : n < 2 ^ 31
  exact : t.iovecs = t.writeQueue.map iovOf ∨ n ≤ (t.writeQueue.headD Vec.null).size
  ends : EndsBuffer t.writeQueue n ∨ InLast t.writeQueue n

instance (q : List Vec) (n : ℕ) : Decidable (InLast q n) := by unfold InLast; infer_instance

instance (t : StreamTransportBase M σ) (n : ℕ) : Decidable (GoodWrite t n) :=
  decidable_of_iff (n < 2 ^ 31 ∧
      (t.iovecs = t.writeQueue.map iovOf ∨ n ≤ (t.writeQueue.headD Vec.null).size) ∧
      (EndsBuffer t.writeQueue n ∨ InLast t.writeQueue n))
    ⟨fun h => ⟨h.1, h.2.1, h.2.2⟩, fun h => ⟨h.small, h.exact, h.ends⟩⟩

/-- The kernel reads the queued bytes. -/
theorem described_take {t : StreamTransportBase M σ} (h : Sound t) {n : ℕ}
    (hn : t.iovecs = t.writeQueue.map iovOf ∨ n ≤ (t.writeQueue.headD Vec.null).size) :
    t.described.take n = (queued t).take n := by
  rcases hn with hn | hn
  · rw [described, hn, List.flatMap_map]
    rfl
  · obtain ⟨extra, hi⟩ := h.iovecs
    have hvalid := h.valid
    rcases hq : t.writeQueue with _ | ⟨v, q⟩
    · rw [hq] at hi
      simp [described, queued, hi, hq, staleIov]
    · rw [hq] at hi hn hvalid
      rw [List.headD_cons] at hn
      have hfits := (hvalid v (by simp)).fits
      have hlen : n ≤ (t.memory.bytes v).length := by
        rw [Memory.length_bytes (hvalid v (by simp))]
        exact hn
      have hstale : n ≤ (t.memory.view v.data (v.size + extra)).length := by
        rw [Memory.view, List.length_take]
        omega
      simp only [described, queued, hi, hq, staleIov, List.flatMap_cons]
      rw [List.take_append_of_le_length hlen, List.take_append_of_le_length hstale,
        Memory.view_take _ _ (by omega), Memory.bytes, Memory.view_take _ _ hn]

/-- The write a kernel outcome makes is good. -/
def GoodOutcome (t : StreamTransportBase M σ) : WriteOutcome → Prop
  | .took k => GoodWrite t (min k t.offered)
  | .failed _ => True

instance (t : StreamTransportBase M σ) : DecidablePred (GoodOutcome t) := fun o => by
  cases o <;> unfold GoodOutcome <;> infer_instance

/-- **A good write keeps the transport sound.** -/
theorem sound_write {t : StreamTransportBase M σ} (h : Sound t) {outcome : WriteOutcome}
    (ho : GoodOutcome t outcome) :
    Sound ((t.writev outcome).2.handleWriteResult (toInt (t.writev outcome).1) outcome.temporary).2 := by
  rw [handleWriteResult_snd]
  cases outcome with
  | took k =>
    obtain ⟨hsmall, hexact, hends⟩ := ho
    have hres : toInt (t.writev (.took k)).1 = (min k t.offered : ℕ) := toInt_of_lt hsmall
    rw [hres, if_neg (Int.not_lt.mpr (Int.natCast_nonneg _)), Int.toNat_natCast]
    simp only [writev, described_take h hexact]
    exact sound_removeWritten h hends
  | failed temporary =>
    have hneg : toInt (-1) < 0 := by decide
    rw [show (t.writev (.failed temporary)).1 = -1 from rfl, if_pos hneg]
    exact h

/-! ### Write events -/

section Events

variable (reg : Register M σ) (app : NextLayer σ)

/-- The state right before the `writev` of a pass, if the pass gets there. -/
def attempt (t : StreamTransportBase M σ) : Option (StreamTransportBase M σ) :=
  match fetchMoreData reg app t with
  | (.done, _) => none
  | (_, t) => some t

/-- The states right before the `writev` calls of `writeLoop`, each with the outcome of the call. -/
def writeAttempts : ℕ → List WriteOutcome → StreamTransportBase M σ →
    List (StreamTransportBase M σ × WriteOutcome)
  | n, kernel, t =>
    ((attempt reg app t).map (·, kernel.headD (.failed true))).toList ++
      match writePass reg app (kernel.headD (.failed true)) t, n with
      | (none, t), n + 1 => writeAttempts n kernel.tail t
      | _, _ => []

/-- `P` holds at every `writev` of the event. -/
def AtWrites (P : StreamTransportBase M σ → WriteOutcome → Prop) (s : Session M σ) : Event → Prop
  | .writeEvent kernel => s.failed = false →
      ∀ a ∈ writeAttempts reg app s.transport.config.maxConsecutiveWrites kernel s.transport, P a.1 a.2
  | _ => True

end Events

/-- What a pass does to the transport: it fetches, and then it may write. -/
theorem writePass_snd (reg : Register M σ) (app : NextLayer σ) (outcome : WriteOutcome)
    (t : StreamTransportBase M σ) :
    (writePass reg app outcome t).2 = match attempt reg app t with
      | none => (fetchMoreData reg app t).2
      | some t => ((t.writev outcome).2.handleWriteResult (toInt (t.writev outcome).1)
          outcome.temporary).2 := by
  rcases hfetch : fetchMoreData reg app t with ⟨v, t₁⟩
  cases v with
  | done => simp only [writePass, attempt, hfetch]
  | ok | error | temporaryError =>
    simp only [writePass, attempt, hfetch]
    generalize (t₁.writev outcome).2.handleWriteResult _ _ = o
    obtain ⟨v, t₂⟩ := o
    cases v <;> rfl

/-- A pass makes at most one attempt. -/
theorem sound_writePass (r : Registration (fun _ => True) M σ) (app : NextLayer σ)
    {t : StreamTransportBase M σ} (outcome : WriteOutcome) (h : Sound t)
    (hgood : ∀ t₁ ∈ attempt r.register app t, GoodOutcome t₁ outcome) :
    Sound (writePass r.register app outcome t).2 ∧ ∀ t₁ ∈ attempt r.register app t, Sound t₁ := by
  have hfetch := (fetchMoreData_changes r (NextLayer.produces_true app) t).keeps sound_change h
  have hattempt : ∀ t₁ ∈ attempt r.register app t, Sound t₁ := by
    intro t₁ ht₁
    unfold attempt at ht₁
    split at ht₁
    · simp at ht₁
    · rename_i he
      rw [he] at hfetch
      obtain rfl := Option.some.inj ht₁
      exact hfetch
  refine ⟨?_, hattempt⟩
  rw [writePass_snd]
  rcases ha : attempt r.register app t with _ | t₁
  · exact hfetch
  · exact sound_write (hattempt t₁ ha) (hgood t₁ ha)

theorem forall_mem_attempts {P : StreamTransportBase M σ × WriteOutcome → Prop}
    {o : Option (StreamTransportBase M σ)} {outcome : WriteOutcome}
    {rest : List (StreamTransportBase M σ × WriteOutcome)} :
    (∀ a ∈ (o.map (·, outcome)).toList ++ rest, P a) ↔
      (∀ t ∈ o, P (t, outcome)) ∧ ∀ a ∈ rest, P a := by
  rw [List.forall_mem_append]
  cases o <;> simp

/-- The attempts of a write event are made in sound states, if all of them are good. -/
theorem sound_writeLoop (r : Registration (fun _ => True) M σ) (app : NextLayer σ) (n : ℕ) :
    ∀ (kernel : List WriteOutcome) (t : StreamTransportBase M σ), Sound t →
      (∀ a ∈ writeAttempts r.register app n kernel t, GoodOutcome a.1 a.2) →
      Sound (writeLoop r.register app n kernel t).2 ∧
        ∀ a ∈ writeAttempts r.register app n kernel t, Sound a.1 := by
  induction n with
  | zero =>
    intro kernel t h hgood
    unfold writeAttempts at hgood ⊢
    unfold writeLoop
    rw [forall_mem_attempts] at hgood ⊢
    obtain ⟨hlast, hattempt⟩ := sound_writePass r app (kernel.headD (.failed true)) h hgood.1
    rcases hp : writePass r.register app (kernel.headD (.failed true)) t with ⟨_ | verdict, t'⟩
    · rw [hp] at hlast
      exact ⟨hlast, hattempt, by simp⟩
    · rw [hp] at hlast
      exact ⟨hlast, hattempt, by simp⟩
  | succ n ih =>
    intro kernel t h hgood
    unfold writeAttempts at hgood ⊢
    unfold writeLoop
    rw [forall_mem_attempts] at hgood ⊢
    obtain ⟨hlast, hattempt⟩ := sound_writePass r app (kernel.headD (.failed true)) h hgood.1
    rcases hp : writePass r.register app (kernel.headD (.failed true)) t with ⟨_ | verdict, t'⟩
    · rw [hp] at hlast hgood
      obtain ⟨hlast', hrest⟩ := ih kernel.tail t' hlast hgood.2
      exact ⟨hlast', hattempt, hrest⟩
    · rw [hp] at hlast
      exact ⟨hlast, hattempt, by simp⟩

/-! ### Sessions -/

/-- Reading does not touch the write side, and `consume` only enqueues. -/
theorem sound_read (r : Registration (fun _ => True) M σ) (app : NextLayer σ)
    (t : StreamTransportBase M σ) (outcome : ReadOutcome) (h : Sound t) :
    Sound (handleReadResult r.register app (toInt (t.recv outcome).1) outcome.temporary
      (t.recv outcome).2).2 := by
  refine handleReadResult_keeps ?_ ?_ t outcome h
  · intro t received buf delivered consumed verdicts h
    exact ⟨h.wf, h.valid, h.separate, h.iovecs, h.rest⟩
  · intro t span h
    exact (callback_changes r _ (fun c _ => Call.allowed_true c) t).keeps sound_change h

theorem sound_start (r : Registration (fun _ => True) M σ) (app : NextLayer σ) (m : M) (s : σ)
    (config : TransportConfig) : Sound (Session.start r.register app m s config).transport := by
  have h : Sound (fresh m s config) := sound_fresh m s config
  exact (calls_changes r _ (fun c _ => Call.allowed_true c) _).keeps sound_change
    ⟨h.wf, h.valid, h.separate, h.iovecs, h.rest⟩

theorem sound_step (r : Registration (fun _ => True) M σ) (app : NextLayer σ) (s : Session M σ)
    (e : Event) (h : Sound s.transport) (hgood : AtWrites r.register app GoodOutcome s e) :
    Sound (Session.step r.register app s e).transport ∧
      AtWrites r.register app (fun t _ => Faithful t) s e := by
  have hkeeps : ∀ {t' : StreamTransportBase M σ}, Changes (fun _ => True) s.transport t' → Sound t' :=
    fun hc => hc.keeps sound_change h
  unfold Session.step
  split_ifs with hf
  · refine ⟨h, ?_⟩
    cases e with
    | writeEvent kernel => exact fun h0 => absurd hf (by simp [h0])
    | _ => trivial
  cases e with
  | readEvent kernel => exact ⟨readLoop_keeps (sound_read r app) _ kernel _ h, trivial⟩
  | timeout id =>
    exact ⟨hkeeps (callback_changes r _ (fun c _ => Call.allowed_true c) _), trivial⟩
  | enqueue bytes => exact ⟨hkeeps (call_changes r _ (Call.allowed_true (.enqueue bytes))), trivial⟩
  | enqueueBuffer bytes spare =>
    exact ⟨hkeeps (call_changes r _ (Call.allowed_true (.enqueueBuffer bytes spare))), trivial⟩
  | writeEvent kernel =>
    obtain ⟨hlast, hattempts⟩ :=
      sound_writeLoop r app _ kernel s.transport h (hgood (Bool.eq_false_of_not_eq_true hf))
    exact ⟨hlast, fun _ a ha => (hattempts a ha).faithful⟩

/-- **The outgoing byte stream.** In a run all of whose writes are good, the bytes the kernel took are
a prefix of the bytes enqueued and the queue holds the rest, in every state reached and at every
`writev`. -/
theorem outgoing_faithful (r : Registration (fun _ => True) M σ) (app : NextLayer σ) (m : M) (s : σ)
    (config : TransportConfig) (es : List Event)
    (hgood : Along (Session.step r.register app) (AtWrites r.register app GoodOutcome)
      (Session.start r.register app m s config) es) :
    Always (Session.step r.register app) (fun s => Faithful s.transport)
        (Session.start r.register app m s config) es ∧
      Along (Session.step r.register app) (AtWrites r.register app fun t _ => Faithful t)
        (Session.start r.register app m s config) es := by
  have hsound := always_of_along (fun t e h he => (sound_step r app t e h he).1)
    (sound_start r app m s config) hgood
  exact ⟨hsound.imp fun _ h => h.faithful,
    hsound.along (fun t e h he => (sound_step r app t e h he).2) hgood⟩

/-- A buffer is written in two halves. -/
theorem outgoing_faithful_halves :
    Always (Session.step eventRegister idleLayer) (fun s => Faithful s.transport)
        (Session.start eventRegister idleLayer Operation.none () {})
        [.enqueue [1, 2, 3, 4], .writeEvent [.took 2, .failed true], .writeEvent [.took 2]] ∧
      Along (Session.step eventRegister idleLayer)
        (AtWrites eventRegister idleLayer fun t _ => Faithful t)
        (Session.start eventRegister idleLayer Operation.none () {})
        [.enqueue [1, 2, 3, 4], .writeEvent [.took 2, .failed true], .writeEvent [.took 2]] :=
  outgoing_faithful (eventRegistration Unit) idleLayer Operation.none () {} _
    ⟨trivial, by unfold AtWrites; decide +kernel, by unfold AtWrites; decide +kernel, trivial⟩

/-- After the first half, the kernel takes all four bytes the iovec describes: the last two are sent
twice. -/
theorem outgoing_stale_iovec :
    ¬ Faithful (run (Session.step eventRegister idleLayer)
      (Session.start eventRegister idleLayer Operation.none () {})
      [.enqueue [1, 2, 3, 4], .writeEvent [.took 2, .took 4]]).transport := by
  decide +kernel

end NetworkDriver.Net.StreamTransport.Outgoing
