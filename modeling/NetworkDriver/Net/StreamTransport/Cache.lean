import NetworkDriver.Library.Pool
import NetworkDriver.Library.Run
import NetworkDriver.Net.StreamTransport.Callbacks

/-! # The buffer cache of the stream transport

Callbacks, `enqueue` and `get_buffer` only take from `buffer_cache_` (`Draws`); a write result puts
the buffers that it empties there, as long as the cache holds fewer than `max_enqueued_bytes_`, which
is the limit that `buffer_cache_has_space` looks at. So every buffer in the cache is empty in every
run, and the cache holds at most `max_cached_write_buffers_` exactly if each write result empties no
more buffers than there is room for, or the other setting is no larger.

* `handleWriteResult_cache`: what a write result puts into the cache.
* `clean_run`, `bounded_run_iff`: every run of the transport.
* `session_reached`: the runs of sessions are such runs. -/

namespace NetworkDriver.Net.StreamTransport.Cache

open NetworkDriver.Library.Pool NetworkDriver.Library.Run NetworkDriver.Library.Vectors
open NetworkDriver.Net.Types NetworkDriver.Net.StreamTransport.Model
open NetworkDriver.Net.StreamTransport.Callbacks StreamTransportBase

variable {M σ : Type} {P : ReceivePolicy → Prop}

/-! ### What is taken from the cache -/

/-- Buffers may have been taken from the cache, and the settings are the same. -/
structure Draws (t t' : StreamTransportBase M σ) : Prop where
  config : t'.config = t.config
  cache : t'.bufferCache <:+ t.bufferCache

theorem Draws.refl (t : StreamTransportBase M σ) : Draws t t := ⟨rfl, List.suffix_refl _⟩

theorem Draws.trans {t t' t'' : StreamTransportBase M σ} (h : Draws t t') (h' : Draws t' t'') :
    Draws t t'' := ⟨h'.config.trans h.config, h'.cache.trans h.cache⟩

theorem change_draws (t t' : StreamTransportBase M σ) (hc : Change P t t') : Draws t t' := by
  cases hc with
  | manager m => exact ⟨rfl, List.suffix_refl _⟩
  | nextLayer s => exact ⟨rfl, List.suffix_refl _⟩
  | configureNextRead p => exact ⟨rfl, List.suffix_refl _⟩
  | pushNew bytes spare => exact ⟨rfl, List.suffix_refl _⟩
  | pushCopy bytes =>
    rw [pushCopy_eq]
    exact ⟨rfl, List.tail_suffix _⟩

theorem changes_draws {t t' : StreamTransportBase M σ} (hc : Changes P t t') : Draws t t' :=
  hc.keeps (fun _ _ hc h => h.trans (change_draws _ _ hc)) (Draws.refl t)

theorem getBuffer_draws (t : StreamTransportBase M σ) : Draws t t.getBuffer.2 := by
  unfold getBuffer
  cases hc : t.bufferCache with
  | nil => exact Draws.refl t
  | cons buf rest =>
    refine ⟨rfl, ?_⟩
    rw [hc]
    exact List.suffix_cons buf rest

theorem handleReadResult_draws (r : Registration (fun _ => True) M σ) (app : NextLayer σ) (res : ℤ)
    (temporary : Bool) (t : StreamTransportBase M σ) :
    Draws t (handleReadResult r.register app res temporary t).2 := by
  have hcons : ∀ span t, Draws t (consume r.register app span t).2 := by
    intro span t
    have h := changes_draws (callback_changes r (app.consume t.nextLayer span)
      (fun c _ => Call.allowed_true c)
      (t.recordSpan span (app.consume t.nextLayer span).2.2))
    exact ⟨h.config, h.cache⟩
  unfold handleReadResult
  by_cases hneg : res < 0
  · rw [if_pos hneg]
    exact Draws.refl t
  · rw [if_neg hneg]
    by_cases hzero : res = 0
    · rw [if_pos hzero]
      exact Draws.refl t
    · rw [if_neg hzero]
      dsimp only
      by_cases hmin : t.minReadSize ≤ t.received + res.toNat
      · rw [if_pos hmin]
        have h := hcons (t.readBuffer.take (t.received + res.toNat))
          { t with received := t.received + res.toNat }
        generalize consume r.register app _ _ = o at h ⊢
        obtain ⟨v, t'⟩ := o
        cases v <;> exact ⟨h.config, h.cache⟩
      · rw [if_neg hmin]
        exact ⟨rfl, List.suffix_refl _⟩

/-! ### What a write result puts there -/

/-- The buffers that the loop of `remove_written_data_from_queue` finds empty, as they are then. -/
def emptied : ℕ → List Vec → List Vec
  | _, [] => []
  | numBytes, buf :: rest =>
    if numBytes = 0 then []
    else if buf.size ≤ numBytes then { buf with size := 0 } :: emptied (numBytes - buf.size) rest
    else emptied numBytes rest

@[simp] theorem emptied_zero (q : List Vec) : emptied 0 q = [] := by
  cases q <;> rfl

theorem size_of_mem_emptied {buf : Vec} {numBytes : ℕ} {q : List Vec} (h : buf ∈ emptied numBytes q) :
    buf.size = 0 := by
  induction q generalizing numBytes with
  | nil => cases h
  | cons b rest ih =>
    unfold emptied at h
    split_ifs at h
    · cases h
    · rcases List.mem_cons.mp h with rfl | h
      · rfl
      · exact ih h
    · exact ih h

theorem returnBuffer_eq (t : StreamTransportBase M σ) (buf : Vec) : (t.returnBuffer buf).2 =
    { t with bufferCache := put t.config.maxEnqueuedBytes t.bufferCache buf } := by
  unfold returnBuffer bufferCacheHasSpace put
  by_cases h : t.bufferCache.length < t.config.maxEnqueuedBytes
  · rw [if_pos (decide_eq_true h), if_pos h]
  · rw [if_neg (by simpa using h), if_neg h]

theorem removeLoop_cache {numBytes : ℕ} (hn : numBytes ≠ 0) (bufs : List Vec)
    (t : StreamTransportBase M σ) :
    (removeLoop numBytes bufs t).2.2.config = t.config ∧
      (removeLoop numBytes bufs t).2.2.bufferCache =
        putAll t.config.maxEnqueuedBytes t.bufferCache (emptied numBytes bufs) := by
  induction bufs generalizing numBytes t with
  | nil => exact ⟨rfl, rfl⟩
  | cons buf rest ih =>
    unfold removeLoop emptied
    rw [if_neg hn]
    by_cases hsize : buf.size ≤ numBytes
    · -- the buffer is cleared and returned
      have hstep : removeStep numBytes buf t = (numBytes - buf.size, 1,
          (t.returnBuffer { buf with size := 0 }).1, (t.returnBuffer { buf with size := 0 }).2) := by
        unfold removeStep
        rw [if_pos hsize]
        rfl
      rw [hstep, if_pos hsize, putAll_cons]
      dsimp only
      by_cases hend : numBytes - buf.size = 0
      · rw [if_pos hend, hend, emptied_zero, returnBuffer_eq]
        exact ⟨rfl, rfl⟩
      · rw [if_neg hend]
        have hloop := ih hend (t.returnBuffer { buf with size := 0 }).2
        rw [returnBuffer_eq] at hloop ⊢
        exact hloop
    · -- the buffer is cut, and the loop goes on with the same number
      have hstep : removeStep numBytes buf t = (numBytes, 0, (t.memory.eraseFront buf numBytes).2,
          { t with memory := (t.memory.eraseFront buf numBytes).1 }) := by
        have hrest : (t.memory.eraseFront buf numBytes).2.size ≠ 0 := by
          unfold Memory.eraseFront
          dsimp only
          omega
        unfold removeStep
        rw [if_neg hsize]
        dsimp only
        rw [if_neg hrest]
      rw [hstep, if_neg hsize]
      dsimp only
      rw [if_neg hn]
      exact ih hn { t with memory := (t.memory.eraseFront buf numBytes).1 }

/-- **A write result** puts the buffers that it empties into the cache. -/
theorem handleWriteResult_cache (res : ℤ) (temporary : Bool) (t : StreamTransportBase M σ) :
    (t.handleWriteResult res temporary).2.config = t.config ∧
      (t.handleWriteResult res temporary).2.bufferCache =
        putAll t.config.maxEnqueuedBytes t.bufferCache (emptied res.toNat t.writeQueue) := by
  unfold handleWriteResult
  by_cases hneg : res < 0
  · rw [if_pos hneg, Int.toNat_of_nonpos (Int.le_of_lt hneg), emptied_zero]
    exact ⟨rfl, rfl⟩
  · rw [if_neg hneg]
    unfold removeWrittenDataFromQueue
    by_cases hzero : res.toNat = 0
    · rw [if_pos hzero, hzero, emptied_zero]
      exact ⟨rfl, rfl⟩
    · rw [if_neg hzero]
      exact removeLoop_cache hzero t.writeQueue
        { t with numEnqueuedBytes := subSize t.numEnqueuedBytes res.toNat }

/-! ### Runs -/

/-- What happens to a transport once it is initialized: what its next layer and its users call, and the
parts that its handlers are made of. -/
inductive Event (M : Type) where
  | call (c : Call)
  | getBuffer
  | timeout (id : UInt64)
  | recv (outcome : ReadOutcome)
  | readResult (res : ℤ) (temporary : Bool)
  | fetch
  | sendmsg (outcome : WriteOutcome)
  | writeResult (res : ℤ) (temporary : Bool)
  | multiplexer (m : M)

/-- One event. The calls of a callback are made one after the other, so that a callback that calls
`get_buffer` is a run as well. -/
def step (reg : Register M σ) (app : NextLayer σ) (t : StreamTransportBase M σ) :
    Event M → StreamTransportBase M σ
  | .call c => t.call reg c
  | .getBuffer => t.getBuffer.2
  | .timeout id => (t.handleTimeout reg app id).2
  | .recv outcome => (t.recv outcome).2
  | .readResult res temporary => (t.handleReadResult reg app res temporary).2
  | .fetch => (t.fetchMoreData reg app).2
  | .sendmsg outcome => (t.writev outcome).2
  | .writeResult res temporary => (t.handleWriteResult res temporary).2
  | .multiplexer m => { t with manager := m }

/-- The transport after `init`. -/
def start (reg : Register M σ) (app : NextLayer σ) (m : M) (s : σ) (config : TransportConfig) :
    StreamTransportBase M σ := (init reg app config (fresh m s {})).2

/-- All buffers in the cache are empty. -/
def Cached (t : StreamTransportBase M σ) : Prop := ∀ buf ∈ t.bufferCache, buf.size = 0

/-- What the cache hands out is empty: `get_buffer` answers an empty buffer, and a copy is queued with
its own bytes only. -/
structure Clean (t : StreamTransportBase M σ) : Prop where
  cached : Cached t
  fetched : t.getBuffer.1.size = 0
  copied : ∀ bytes, (t.pushCopy bytes).trace.enqueued = t.trace.enqueued ++ bytes

/-- The cache holds at most `max_cached_write_buffers_`. -/
def Bounded (t : StreamTransportBase M σ) : Prop :=
  t.bufferCache.length ≤ t.config.maxCachedWriteBuffers

instance : DecidablePred (Bounded (M := M) (σ := σ)) := fun t =>
  inferInstanceAs (Decidable (t.bufferCache.length ≤ t.config.maxCachedWriteBuffers))

/-- The buffers that an event empties. -/
def added (t : StreamTransportBase M σ) : Event M → List Vec
  | .writeResult res _ => emptied res.toNat t.writeQueue
  | _ => []

/-- An event empties no more buffers than there is room for, or `max_enqueued_bytes_` is no limit above
`max_cached_write_buffers_`. -/
def Fits (t : StreamTransportBase M σ) (e : Event M) : Prop :=
  added t e ≠ [] → t.config.maxEnqueuedBytes ≤ t.config.maxCachedWriteBuffers ∨
    t.bufferCache.length + (added t e).length ≤ t.config.maxCachedWriteBuffers

theorem bytes_assign (memory : Memory) (buf : Vec) (bytes : List UInt8) :
    (memory.assign buf bytes).1.bytes (memory.assign buf bytes).2 = bytes := by
  unfold Memory.assign Memory.bytes Memory.view
  split_ifs
  · simp [Memory.store]
  · unfold Memory.alloc
    split_ifs with hnil
    · obtain rfl : bytes = [] := by simpa using hnil
      rfl
    · simp

/-- **An empty cache entry leaves no trace.** -/
theorem Cached.clean {t : StreamTransportBase M σ} (h : Cached t) : Clean t where
  cached := h
  fetched := by
    unfold getBuffer
    cases hc : t.bufferCache with
    | nil => rfl
    | cons buf rest =>
      refine h buf ?_
      rw [hc]
      exact List.mem_cons_self
  copied bytes := by
    rw [pushCopy_eq]
    change t.trace.enqueued ++ _ = _
    rw [bytes_assign]

section Runs

variable (r : Registration (fun _ => True) M σ) (app : NextLayer σ)

/-- Every event but a write result draws from the cache at most. -/
theorem step_draws (t : StreamTransportBase M σ) {e : Event M}
    (he : ∀ res temporary, e ≠ .writeResult res temporary) : Draws t (step r.register app t e) := by
  cases e with
  | call c => exact changes_draws (call_changes r t (Call.allowed_true c))
  | getBuffer => exact getBuffer_draws t
  | timeout id => exact changes_draws (callback_changes r _ (fun c _ => Call.allowed_true c) t)
  | recv outcome => cases outcome <;> exact ⟨rfl, List.suffix_refl _⟩
  | readResult res temporary => exact handleReadResult_draws r app res temporary t
  | fetch => exact changes_draws (fetchMoreData_changes r (NextLayer.produces_true app) t)
  | sendmsg outcome => cases outcome <;> exact ⟨rfl, List.suffix_refl _⟩
  | writeResult res temporary => exact absurd rfl (he res temporary)
  | multiplexer m => exact ⟨rfl, List.suffix_refl _⟩

theorem step_cache (t : StreamTransportBase M σ) (e : Event M) :
    (step r.register app t e).config = t.config ∧
      (added t e = [] ∧ (step r.register app t e).bufferCache <:+ t.bufferCache ∨
        (step r.register app t e).bufferCache =
          putAll t.config.maxEnqueuedBytes t.bufferCache (added t e)) := by
  by_cases he : ∃ res temporary, e = .writeResult res temporary
  · obtain ⟨res, temporary, rfl⟩ := he
    obtain ⟨hconfig, hcache⟩ := handleWriteResult_cache res temporary t
    exact ⟨hconfig, .inr hcache⟩
  · have hdraws := step_draws r app t fun res temporary heq => he ⟨res, temporary, heq⟩
    refine ⟨hdraws.config, .inl ⟨?_, hdraws.cache⟩⟩
    cases e with
    | writeResult res temporary => exact absurd ⟨res, temporary, rfl⟩ he
    | _ => rfl

/-- **The cache is a pool** of the transport. -/
theorem serves : Serves (step r.register app) bufferCache (fun t => t.config.maxEnqueuedBytes)
    (fun t => t.config.maxCachedWriteBuffers) added where
  capacity_step t e := by rw [(step_cache r app t e).1]
  limit_step t e := by rw [(step_cache r app t e).1]
  pool_step t e := (step_cache r app t e).2

theorem start_cache (m : M) (s : σ) (config : TransportConfig) :
    (start r.register app m s config).config = config ∧
      (start r.register app m s config).bufferCache = [] := by
  have hdraws : Draws { fresh m s {} with config := config } (start r.register app m s config) :=
    changes_draws ((calls_changes r (app.init s).2.1 (fun c _ => Call.allowed_true c) _).head
      (Change.nextLayer (app.init s).1 _))
  exact ⟨hdraws.config, List.suffix_nil.mp hdraws.cache⟩

/-- **The cache is clean** in every run. -/
theorem clean_run (m : M) (s : σ) (config : TransportConfig) (es : List (Event M)) :
    Always (step r.register app) Clean (start r.register app m s config) es := by
  have hadded : ∀ t (e : Event M), ∀ buf ∈ added (σ := σ) t e, buf.size = 0 := by
    intro t e buf hbuf
    cases e with
    | writeResult res temporary => exact size_of_mem_emptied hbuf
    | _ => cases hbuf
  have hstart : Cached (start r.register app m s config) := by
    intro buf hbuf
    rw [(start_cache r app m s config).2] at hbuf
    cases hbuf
  exact ((serves r app).always_forall hadded hstart es).imp fun _ h => Cached.clean h

theorem bounded_start (m : M) (s : σ) (config : TransportConfig) :
    Bounded (start r.register app m s config) := by
  unfold Bounded
  rw [(start_cache r app m s config).2]
  exact Nat.zero_le _

/-- **The cache is bounded** in a run exactly if its write results fit. -/
theorem bounded_run_iff (m : M) (s : σ) (config : TransportConfig) (es : List (Event M)) :
    Always (step r.register app) Bounded (start r.register app m s config) es ↔
      Along (step r.register app) Fits (start r.register app m s config) es :=
  (serves r app).always_le_iff (bounded_start r app m s config) es

/-- With settings in this order no run gets beyond the limit. -/
theorem bounded_of_settings (m : M) (s : σ) {config : TransportConfig}
    (h : config.maxEnqueuedBytes ≤ config.maxCachedWriteBuffers) (es : List (Event M)) :
    Always (step r.register app) Bounded (start r.register app m s config) es := by
  refine (serves r app).always_le (bounded_start r app m s config) ?_ es
  rw [(start_cache r app m s config).1]
  exact h

theorem run_limit (m : M) (s : σ) (config : TransportConfig) (es : List (Event M)) :
    (run (step r.register app) (start r.register app m s config) es).config.maxCachedWriteBuffers =
      config.maxCachedWriteBuffers := by
  have hrun := (serves r app).run_limit (start r.register app m s config) es
  rw [(start_cache r app m s config).1] at hrun
  exact hrun

end Runs

/-! ### Sessions -/

section Sessions

variable {reg : Register M σ} {app : NextLayer σ} {t₀ t : StreamTransportBase M σ}

theorem handleReadEvent_reached (h : Reaches (step reg app) t₀ t) (kernel : List ReadOutcome) :
    Reaches (step reg app) t₀ (t.handleReadEvent reg app kernel).2 :=
  readLoop_keeps (fun t outcome ht => (ht.next (.recv outcome)).next
    (.readResult (toInt (t.recv outcome).1) outcome.temporary)) _ kernel t h

theorem handleWriteEvent_reached (h : Reaches (step reg app) t₀ t) (kernel : List WriteOutcome) :
    Reaches (step reg app) t₀ (t.handleWriteEvent reg app kernel).2 :=
  writeLoop_keeps (fun _ ht => ht.next .fetch)
    (fun t outcome ht => (ht.next (.sendmsg outcome)).next
      (.writeResult (toInt (t.writev outcome).1) outcome.temporary)) _ kernel t h

theorem session_step_reached (session : Session M σ) (e : Model.Event)
    (h : Reaches (step reg app) t₀ session.transport) :
    Reaches (step reg app) t₀ (session.step reg app e).transport := by
  unfold Session.step
  by_cases hfailed : session.failed = true
  · rw [if_pos hfailed]
    exact h
  · rw [if_neg hfailed]
    cases e with
    | readEvent kernel => exact handleReadEvent_reached h kernel
    | writeEvent kernel => exact handleWriteEvent_reached h kernel
    | timeout id => exact h.next (.timeout id)
    | enqueue bytes => exact h.next (.call (.enqueue bytes))
    | enqueueBuffer bytes spare => exact h.next (.call (.enqueueBuffer bytes spare))

/-- **The handlers** of an event-driven transport make such runs. -/
theorem session_reached (m : M) (s : σ) (config : TransportConfig) (es : List Model.Event) :
    Reaches (step reg app) (start reg app m s config)
      (run (Session.step reg app) (Session.start reg app m s config) es).transport := by
  have hall : Always (Session.step reg app)
      (fun session => Reaches (step reg app) (start reg app m s config) session.transport)
      (Session.start reg app m s config) es :=
    always_of_step session_step_reached es (Reaches.refl _)
  exact hall.last

/-- So in every session the cache is clean, and bounded with settings in the right order. -/
theorem session_clean (r : Registration (fun _ => True) M σ) (app : NextLayer σ) (m : M) (s : σ)
    (config : TransportConfig) (es : List Model.Event) :
    Clean (run (Session.step r.register app) (Session.start r.register app m s config) es).transport ∧
      (config.maxEnqueuedBytes ≤ config.maxCachedWriteBuffers →
        Bounded (run (Session.step r.register app) (Session.start r.register app m s config)
          es).transport) := by
  obtain ⟨es', hrun⟩ : Reaches (step r.register app) (start r.register app m s config) _ :=
    session_reached m s config es
  rw [← hrun]
  exact ⟨(clean_run r app m s config es').last,
    fun h => (bounded_of_settings r app m s h es').last⟩

end Sessions

end NetworkDriver.Net.StreamTransport.Cache
