import NetworkDriver.Net.Datagrams.Cache
import NetworkDriver.Net.Datagrams.Pointers
import NetworkDriver.Net.Multiplexer.Uring.Managers
import NetworkDriver.Net.StreamTransport.Cache
import NetworkDriver.Net.StreamTransport.Queue

/-! # The buffer cache of the transports

Both transports together. The cache is clean in every run, and bounded in the runs whose write results
fit; for a whole configuration, that is if `max_enqueued_bytes_` is at most
`max_cached_write_buffers_`.

* `streamRegistration`, `streamHandleCompletion_reached`: streams under io_uring.
* `stream_settings_iff`, `datagram_settings_iff`: the configurations whose runs are all bounded.
* `buffer_cache_iff`: both transports, every run. -/

namespace NetworkDriver.Net.BufferCache

open NetworkDriver.Library.Pool NetworkDriver.Library.Run NetworkDriver.Library.Vectors
open NetworkDriver.Net.Types
open NetworkDriver.Net.StreamTransport.Model (TransportConfig)

/-! ### Streams under io_uring -/

section Uring

open NetworkDriver.Net.Multiplexer.Base NetworkDriver.Net.Multiplexer.Uring.Managers
open NetworkDriver.Net.Multiplexer.Uring.Submissions
open NetworkDriver.Net.StreamTransport.Model StreamTransportBase
open NetworkDriver.Net.StreamTransport.Callbacks NetworkDriver.Net.StreamTransport.Cache

variable {σ : Type} {P : ReceivePolicy → Prop}

theorem submitted_changes (f : Manager → Ring → (Bool × UInt64) × Ring) (t : Object σ) :
    Changes P t (submitted f t).2 :=
  Relation.ReflTransGen.single (Change.manager _ t)

theorem registerBy_changes {virt : Operation → Object σ → ManagerResult × Object σ}
    {op : Operation} (hvirt : ∀ t, Changes P t (virt op t).2) (t : Object σ) :
    Changes P t (registerBy virt op t) := by
  unfold registerBy enableBy Multiplexer.Uring.Model.enableWith
  by_cases hmask : t.manager.mask &&& op = Operation.none
  · rw [if_pos hmask]
    cases maskAdd t.manager.mask op with
    | none => exact Relation.ReflTransGen.refl
    | some new =>
      have hset : Changes P t (maskSet new t) := Relation.ReflTransGen.single (Change.manager _ t)
      have hrun := hset.trans (hvirt (maskSet new t))
      dsimp only [bind, pure]
      split_ifs
      · exact hrun
      · cases maskDel (virt op (maskSet new t)).2.manager.mask op with
        | none => exact hrun
        | some old => exact hrun.tail (Change.manager _ _)
  · rw [if_neg hmask]

/-- The registrations inside an `enable`. -/
def innerRegistration : Registration P Port σ where
  register := innerRegister
  changes op t := by
    unfold innerRegister
    split_ifs
    · exact registerBy_changes (submitted_changes Ring.submitRead) t
    · exact Relation.ReflTransGen.refl

/-- The registrations of a stream. -/
def streamRegistration {app : NextLayer σ} (happ : NextLayer.Produces P app) :
    Registration P Port σ where
  register := streamRegister app
  changes op t := by
    refine registerBy_changes (fun t => ?_) t
    have hfetch := fetchMoreData_changes innerRegistration happ t
    unfold streamEnable
    split_ifs with hread hwrite
    · exact submitted_changes Ring.submitRead t
    · dsimp only
      split_ifs
      · exact hfetch
      · exact hfetch.trans (submitted_changes Ring.submitWritev _)
    · exact Relation.ReflTransGen.refl

variable {app : NextLayer σ} {t₀ t : Object σ}

theorem submitBy_reached (h : Reaches (step (streamRegister app) app) t₀ t)
    (f : Manager → Ring → (Bool × UInt64) × Ring) :
    Reaches (step (streamRegister app) app) t₀ (submitBy f t).2 :=
  h.next (.multiplexer (submitBy f t).2.manager)

theorem submitWriteAgain_reached (h : Reaches (step (streamRegister app) app) t₀ t) :
    Reaches (step (streamRegister app) app) t₀ (submitWriteAgain app t).2 := by
  have hfetch := h.next .fetch
  unfold submitWriteAgain
  dsimp only
  split_ifs
  · exact hfetch
  · exact submitBy_reached hfetch Ring.submitWritev

/-- **The completions** of a stream make runs of its transport. -/
theorem streamHandleCompletion_reached (h : Reaches (step (streamRegister app) app) t₀ t)
    (op : Operation) (res : ℤ) (temporary : Bool) :
    Reaches (step (streamRegister app) app) t₀ (streamHandleCompletion app op res temporary t).2 := by
  unfold streamHandleCompletion
  split_ifs
  · have hread := h.next (.readResult res temporary)
    change Reaches _ t₀ (handleReadResult (streamRegister app) app res temporary t).2 at hread
    generalize handleReadResult (streamRegister app) app res temporary t = o at hread ⊢
    obtain ⟨v, t'⟩ := o
    cases v with
    | ok => exact submitBy_reached hread Ring.submitRead
    | temporaryError => exact submitBy_reached hread Ring.submitPollRead
    | done | error => exact hread
  · exact submitBy_reached h Ring.submitRead
  · have hwritten := h.next (.writeResult res temporary)
    change Reaches _ t₀ (handleWriteResult res temporary t).2 at hwritten
    generalize handleWriteResult res temporary t = o at hwritten ⊢
    obtain ⟨v, t'⟩ := o
    cases v with
    | ok => exact submitWriteAgain_reached hwritten
    | temporaryError => exact submitBy_reached hwritten Ring.submitPollWrite
    | done | error => exact hwritten
  · exact submitWriteAgain_reached h
  · exact h

end Uring

/-! ### Settings -/

section Stream

open NetworkDriver.Net.StreamTransport.Model StreamTransportBase
open NetworkDriver.Net.StreamTransport.Callbacks NetworkDriver.Net.StreamTransport.Cache
open NetworkDriver.Net.StreamTransport.Queue (idleLayer)

/-- A stream whose next layer does nothing. -/
abbrev idleStream (config : TransportConfig) : StreamTransportBase Operation Unit :=
  start eventRegister idleLayer Operation.none () config

/-- A buffer of one byte is enqueued and written, so many times. -/
def streamRounds : ℕ → List (Event Operation)
  | 0 => []
  | n + 1 => .call (.enqueueBuffer [0] []) :: .writeResult 1 false :: streamRounds n

theorem eventRegister_frame {σ : Type} (op : Operation) (t : StreamTransportBase Operation σ) :
    (eventRegister op t).writeQueue = t.writeQueue ∧ (eventRegister op t).bufferCache = t.bufferCache ∧
      (eventRegister op t).config = t.config := by
  unfold eventRegister
  split_ifs <;> exact ⟨rfl, rfl, rfl⟩

/-- A queue of one buffer with one byte is empty after a write of one byte. -/
theorem writeQueue_written {M σ : Type} {t : StreamTransportBase M σ} {buf : Vec}
    (hqueue : t.writeQueue = [buf]) (hsize : buf.size = 1) :
    (t.handleWriteResult 1 false).2.writeQueue = [] := by
  simp [handleWriteResult, removeWrittenDataFromQueue, hqueue, removeLoop, removeStep, hsize]

theorem streamRounds_cache (n : ℕ) {t : StreamTransportBase Operation Unit}
    (hqueue : t.writeQueue = []) (hspace : t.bufferCache.length + n ≤ t.config.maxEnqueuedBytes) :
    (run (step eventRegister idleLayer) t (streamRounds n)).bufferCache.length =
      t.bufferCache.length + n := by
  induction n generalizing t with
  | zero => rfl
  | succ n ih =>
    obtain ⟨hqueue₁, hcache₁, hconfig₁⟩ := eventRegister_frame Operation.write (t.pushNew [0] [])
    change (t.enqueueBuffer eventRegister [0] []).writeQueue = t.writeQueue ++ [⟨t.memory.next, 1⟩]
      at hqueue₁
    change (t.enqueueBuffer eventRegister [0] []).bufferCache = t.bufferCache at hcache₁
    change (t.enqueueBuffer eventRegister [0] []).config = t.config at hconfig₁
    rw [hqueue, List.nil_append] at hqueue₁
    change (run (step eventRegister idleLayer)
      ((t.enqueueBuffer eventRegister [0] []).handleWriteResult 1 false).2
      (streamRounds n)).bufferCache.length = _
    generalize t.enqueueBuffer eventRegister [0] [] = t₁ at hqueue₁ hcache₁ hconfig₁ ⊢
    obtain ⟨hconfig₂, hcache₂⟩ := handleWriteResult_cache 1 false t₁
    have hlength : (t₁.handleWriteResult 1 false).2.bufferCache.length = t.bufferCache.length + 1 := by
      have hone : (emptied (Int.toNat 1) t₁.writeQueue).length = 1 := by
        rw [hqueue₁]
        rfl
      rw [hcache₂, length_putAll, hone, hcache₁, hconfig₁]
      omega
    rw [ih (writeQueue_written hqueue₁ rfl) (by rw [hlength, hconfig₂, hconfig₁]; omega), hlength]
    omega

/-- With `max_enqueued_bytes_` above the limit the cache goes beyond it. -/
theorem stream_overflow {config : TransportConfig}
    (h : config.maxCachedWriteBuffers < config.maxEnqueuedBytes) :
    ¬Bounded (run (step eventRegister idleLayer) (idleStream config)
      (streamRounds (config.maxCachedWriteBuffers + 1))) := by
  have hlimit : (run (step eventRegister idleLayer) (idleStream config)
      (streamRounds (config.maxCachedWriteBuffers + 1))).config.maxCachedWriteBuffers =
        config.maxCachedWriteBuffers :=
    run_limit (eventRegistration Unit) idleLayer Operation.none () config _
  have hspace : (idleStream config).bufferCache.length + (config.maxCachedWriteBuffers + 1) ≤
      (idleStream config).config.maxEnqueuedBytes := by
    change 0 + (config.maxCachedWriteBuffers + 1) ≤ config.maxEnqueuedBytes
    omega
  unfold Bounded
  rw [streamRounds_cache _ rfl hspace, hlimit]
  omega

/-- **The settings of a stream**: all runs respect `max_cached_write_buffers_` exactly if
`max_enqueued_bytes_` is no larger. -/
theorem stream_settings_iff (config : TransportConfig) :
    (∀ es, Always (step eventRegister idleLayer) Bounded (idleStream config) es) ↔
      config.maxEnqueuedBytes ≤ config.maxCachedWriteBuffers := by
  constructor
  · intro hall
    by_contra hgt
    exact stream_overflow (by omega) (hall _).last
  · intro h es
    exact bounded_of_settings (eventRegistration Unit) idleLayer Operation.none () h es

end Stream

section Datagram

open NetworkDriver.Net.Datagrams.Model DatagramTransport
open NetworkDriver.Net.Datagrams.Cache
open NetworkDriver.Net.Datagrams.Pointers (silentLayer written_writeQueue)

/-- A datagram transport whose next layer does nothing. -/
abbrev silentTransport (config : TransportConfig) : DatagramTransport Operation Unit :=
  start eventRegister silentLayer Operation.none () (fun _ => 0) config

/-- A datagram of one byte is enqueued and sent, so many times. -/
def datagramRounds : ℕ → List (Event Operation)
  | 0 => []
  | n + 1 => .call (.enqueueBuffer [0] 1 ⟨0, 0⟩) :: .writeResult 1 false 0 :: datagramRounds n

theorem datagramRegister_frame {σ : Type} (op : Operation) (t : DatagramTransport Operation σ) :
    (eventRegister op t).writeQueue = t.writeQueue ∧ (eventRegister op t).bufferCache = t.bufferCache ∧
      (eventRegister op t).config = t.config := by
  unfold eventRegister
  split_ifs <;> exact ⟨rfl, rfl, rfl⟩

/-- One datagram of one byte is in the queue. -/
theorem enqueueBuffer_one {t : DatagramTransport Operation Unit} (hqueue : t.writeQueue.elems = []) :
    ∃ d, (t.enqueueBuffer eventRegister [0] 1 ⟨0, 0⟩).writeQueue.elems = [d] ∧ d.buf.bytes = [0] := by
  have hframe := (datagramRegister_frame Operation.write (t.pushNew [0] 1 ⟨0, 0⟩)).1
  have helems : (t.enqueueBuffer eventRegister [0] 1 ⟨0, 0⟩).writeQueue.elems =
      t.writeQueue.elems ++ [makeDatagram ⟨t.heap, 1, [0]⟩ ⟨0, 0⟩
        (t.writeQueue.slot t.writeQueue.elems.length)] := congrArg Library.Slots.Deque.elems hframe
  rw [hqueue, List.nil_append] at helems
  exact ⟨_, helems, rfl⟩

/-- It is sent. -/
theorem writeResult_one {t : DatagramTransport Operation Unit} {d : Datagram}
    (hqueue : t.writeQueue.elems = [d]) (hbytes : d.buf.bytes = [0]) :
    step eventRegister silentLayer t (.writeResult 1 false 0) = t.written 0 d := by
  have hnotshort : ¬(1 : ℤ).toNat < d.buf.bytes.length := by
    rw [hbytes]
    decide
  unfold step
  dsimp only
  rw [hqueue]
  dsimp only [List.getElem?_cons_zero]
  unfold handleWriteResult
  rw [if_neg (by decide), if_neg hnotshort]

theorem datagramRounds_cache (n : ℕ) {t : DatagramTransport Operation Unit}
    (hqueue : t.writeQueue.elems = [])
    (hspace : t.bufferCache.length + n ≤ t.config.maxEnqueuedBytes) :
    (run (step eventRegister silentLayer) t (datagramRounds n)).bufferCache.length =
      t.bufferCache.length + n := by
  induction n generalizing t with
  | zero => rfl
  | succ n ih =>
    obtain ⟨d, hqueue₁, hbytes⟩ := enqueueBuffer_one hqueue
    obtain ⟨-, hcache₁, hconfig₁⟩ :=
      datagramRegister_frame Operation.write (t.pushNew [0] 1 ⟨0, 0⟩)
    change (t.enqueueBuffer eventRegister [0] 1 ⟨0, 0⟩).bufferCache = t.bufferCache at hcache₁
    change (t.enqueueBuffer eventRegister [0] 1 ⟨0, 0⟩).config = t.config at hconfig₁
    change (run (step eventRegister silentLayer)
      (step eventRegister silentLayer (t.enqueueBuffer eventRegister [0] 1 ⟨0, 0⟩)
        (.writeResult 1 false 0)) (datagramRounds n)).bufferCache.length = _
    rw [writeResult_one hqueue₁ hbytes]
    generalize t.enqueueBuffer eventRegister [0] 1 ⟨0, 0⟩ = t₁ at hqueue₁ hcache₁ hconfig₁ ⊢
    have hqueue₂ : (t₁.written 0 d).writeQueue.elems = [] := by
      rw [(written_writeQueue t₁ 0 d).1]
      change t₁.writeQueue.elems.eraseIdx 0 = []
      rw [hqueue₁]
      rfl
    obtain ⟨hconfig₂, hcache₂⟩ := written_cache 0 d t₁
    have hlength : (t₁.written 0 d).bufferCache.length = t.bufferCache.length + 1 := by
      unfold put at hcache₂
      rw [hcache₁, hconfig₁, if_pos (by omega)] at hcache₂
      rw [hcache₂, List.length_append, List.length_singleton]
    rw [ih hqueue₂ (by rw [hlength, hconfig₂, hconfig₁]; omega), hlength]
    omega

/-- With `max_enqueued_bytes_` above the limit the cache goes beyond it. -/
theorem datagram_overflow {config : TransportConfig}
    (h : config.maxCachedWriteBuffers < config.maxEnqueuedBytes) :
    ¬Bounded (run (step eventRegister silentLayer) (silentTransport config)
      (datagramRounds (config.maxCachedWriteBuffers + 1))) := by
  have hlimit : (run (step eventRegister silentLayer) (silentTransport config)
      (datagramRounds (config.maxCachedWriteBuffers + 1))).config.maxCachedWriteBuffers =
        config.maxCachedWriteBuffers :=
    run_limit (eventRegistration Unit) silentLayer Operation.none () _ config _
  have hspace : (silentTransport config).bufferCache.length + (config.maxCachedWriteBuffers + 1) ≤
      (silentTransport config).config.maxEnqueuedBytes := by
    change 0 + (config.maxCachedWriteBuffers + 1) ≤ config.maxEnqueuedBytes
    omega
  unfold Bounded
  rw [datagramRounds_cache _ rfl hspace, hlimit]
  omega

/-- **The settings of a datagram transport**, likewise. -/
theorem datagram_settings_iff (config : TransportConfig) :
    (∀ es, Always (step eventRegister silentLayer) Bounded (silentTransport config) es) ↔
      config.maxEnqueuedBytes ≤ config.maxCachedWriteBuffers := by
  constructor
  · intro hall
    by_contra hgt
    exact datagram_overflow (by omega) (hall _).last
  · intro h es
    exact bounded_of_settings (eventRegistration Unit) silentLayer Operation.none () _ h es

end Datagram

/-! ### Both transports -/

/-- **The buffer cache.** In every run of a stream or datagram transport, whatever its settings, its
next layer and its multiplexer, the cache is clean; and it is bounded if and only if every write
result fits. -/
theorem buffer_cache_iff {M σ N τ : Type} (config : TransportConfig)
    (r : StreamTransport.Callbacks.Registration (fun _ => True) M σ)
    (app : StreamTransport.Model.NextLayer σ) (m : M) (s : σ)
    (es : List (StreamTransport.Cache.Event M))
    (r' : Datagrams.Cache.CacheRegistration N τ) (app' : Datagrams.Model.NextLayer τ) (n : N) (s' : τ)
    (beyond : ℕ → UInt8) (es' : List (Datagrams.Cache.Event N)) :
    (Always (StreamTransport.Cache.step r.register app) StreamTransport.Cache.Clean
          (StreamTransport.Cache.start r.register app m s config) es ∧
        (Always (StreamTransport.Cache.step r.register app) StreamTransport.Cache.Bounded
            (StreamTransport.Cache.start r.register app m s config) es ↔
          Along (StreamTransport.Cache.step r.register app) StreamTransport.Cache.Fits
            (StreamTransport.Cache.start r.register app m s config) es)) ∧
      Always (Datagrams.Cache.step r'.register app') Datagrams.Cache.Clean
          (Datagrams.Cache.start r'.register app' n s' beyond config) es' ∧
        (Always (Datagrams.Cache.step r'.register app') Datagrams.Cache.Bounded
            (Datagrams.Cache.start r'.register app' n s' beyond config) es' ↔
          Along (Datagrams.Cache.step r'.register app') Datagrams.Cache.Fits
            (Datagrams.Cache.start r'.register app' n s' beyond config) es') := by
  refine ⟨⟨?_, ?_⟩, ?_, ?_⟩
  · exact StreamTransport.Cache.clean_run r app m s config es
  · exact StreamTransport.Cache.bounded_run_iff r app m s config es
  · exact Datagrams.Cache.clean_run r' app' n s' beyond config es'
  · exact Datagrams.Cache.bounded_run_iff r' app' n s' beyond config es'

/-- With the settings that `init` falls back to, the eleventh buffer is cached as well. -/
theorem default_cache_overflows :
    ¬Always (StreamTransport.Cache.step StreamTransport.Model.eventRegister
          StreamTransport.Queue.idleLayer)
        StreamTransport.Cache.Bounded (idleStream { maxEnqueuedBytes := 10000 }) (streamRounds 11) ∧
      ¬Always (Datagrams.Cache.step Datagrams.Model.eventRegister Datagrams.Pointers.silentLayer)
        Datagrams.Cache.Bounded (silentTransport { maxEnqueuedBytes := 10000 })
        (datagramRounds 11) :=
  ⟨fun h => stream_overflow (by decide) h.last, fun h => datagram_overflow (by decide) h.last⟩

end NetworkDriver.Net.BufferCache
