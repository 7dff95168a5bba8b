import NetworkDriver.Library.Pool
import NetworkDriver.Net.Datagrams.Callbacks

/-! # The buffer cache of the datagram transport

As for the stream transport: callbacks, registrations, `enqueue` and `get_buffer` only take from
`buffer_cache_` (`Draws`), and the result of a complete send puts the buffer of its datagram there, as
long as the cache holds fewer than `max_enqueued_bytes_`.

* `eventRegistration`, `uringRegistration`: the registrations of both backends only take.
* `clean_run`, `bounded_run_iff`: every run of the transport.
* `session_reached`, `completions_reached`: the runs of both backends are such runs. -/

namespace NetworkDriver.Net.Datagrams.Cache

open NetworkDriver.Library.Pool NetworkDriver.Library.Run
open NetworkDriver.Net.Types NetworkDriver.Net.Datagrams.Model DatagramTransport
open NetworkDriver.Net.StreamTransport.Model (TransportConfig)
open NetworkDriver.Net.Datagrams.Callbacks (alloc_eq pushNew_eq pushCopy_eq handleReadResult_keeps
  writeLoop_keeps)

variable {M σ : Type}

/-! ### What is taken from the cache -/

/-- Buffers may have been taken from the cache, and the settings are the same. -/
structure Draws (t t' : DatagramTransport M σ) : Prop where
  config : t'.config = t.config
  cache : t'.bufferCache <:+ t.bufferCache

theorem Draws.refl (t : DatagramTransport M σ) : Draws t t := ⟨rfl, List.suffix_refl _⟩

theorem Draws.trans {t t' t'' : DatagramTransport M σ} (h : Draws t t') (h' : Draws t' t'') :
    Draws t t'' := ⟨h'.config.trans h.config, h'.cache.trans h.cache⟩

theorem getBuffer_draws (t : DatagramTransport M σ) : Draws t t.getBuffer.2 := by
  unfold getBuffer
  cases hc : t.bufferCache with
  | nil => exact Draws.refl t
  | cons buf rest =>
    refine ⟨rfl, ?_⟩
    rw [hc]
    exact List.suffix_cons buf rest

theorem assign_draws (buf : Buffer) (bytes : List UInt8) (t : DatagramTransport M σ) :
    Draws t (t.assign buf bytes).2 := by
  unfold assign
  split_ifs
  · exact Draws.refl t
  · obtain ⟨buf', heap, heq, -⟩ := alloc_eq bytes bytes.length t
    rw [heq]
    exact ⟨rfl, List.suffix_refl _⟩

theorem pushCopy_draws (bytes : List UInt8) (ep : Endpoint) (t : DatagramTransport M σ) :
    Draws t (t.pushCopy bytes ep) := by
  have h := (getBuffer_draws t).trans (assign_draws t.getBuffer.1 bytes t.getBuffer.2)
  exact ⟨h.config, h.cache⟩

theorem pushNew_draws (bytes : List UInt8) (capacity : ℕ) (ep : Endpoint) (t : DatagramTransport M σ) :
    Draws t (t.pushNew bytes capacity ep) := by
  obtain ⟨buf, heap, heq, -⟩ := pushNew_eq bytes capacity ep t
  rw [heq]
  exact ⟨rfl, List.suffix_refl _⟩

/-- Registration with a multiplexer that only takes from the cache. -/
structure CacheRegistration (M σ : Type) where
  register : Register M σ
  draws : ∀ op t, Draws t (register op t)

/-- The registration of the readiness multiplexers. -/
def eventRegistration (σ : Type) : CacheRegistration Operation σ where
  register := eventRegister
  draws op t := by
    unfold eventRegister
    split_ifs
    · exact ⟨rfl, List.suffix_refl _⟩
    · exact Draws.refl t

section Callbacks

variable (r : CacheRegistration M σ)

theorem call_draws (t : DatagramTransport M σ) (c : Call) : Draws t (t.call r.register c) := by
  cases c with
  | configureNextRead p => exact ⟨rfl, List.suffix_refl _⟩
  | enqueue bytes ep => exact (pushCopy_draws bytes ep t).trans (r.draws .write _)
  | enqueueBuffer bytes capacity ep =>
    exact (pushNew_draws bytes capacity ep t).trans (r.draws .write _)
  | registerReading => exact r.draws .read t
  | registerWriting => exact r.draws .write t

theorem calls_draws (cs : List Call) (t : DatagramTransport M σ) :
    Draws t (cs.foldl (call r.register) t) := by
  induction cs generalizing t with
  | nil => exact Draws.refl t
  | cons c cs ih => exact (call_draws r t c).trans (ih _)

theorem callback_draws (answer : σ × List Call × ManagerResult) (t : DatagramTransport M σ) :
    Draws t (callback r.register answer t).2 := by
  have h := calls_draws r answer.2.1 { t with nextLayer := answer.1 }
  exact ⟨h.config, h.cache⟩

variable (app : NextLayer σ)

theorem fetchLoop_draws (i : ℕ) (t : DatagramTransport M σ) :
    Draws t (fetchLoop r.register app i t) := by
  induction i generalizing t with
  | zero => exact Draws.refl t
  | succ i ih =>
    unfold fetchLoop
    split_ifs
    · exact (callback_draws r _ t).trans (ih _)
    · exact Draws.refl t
    · exact Draws.refl t

theorem fetchMoreData_draws (t : DatagramTransport M σ) :
    Draws t (fetchMoreData r.register app t).2 := fetchLoop_draws r app _ t

theorem readResult_draws (ep : Endpoint) (res : ℤ) (temporary : Bool) (t : DatagramTransport M σ) :
    Draws t (handleReadResult r.register app ep res temporary t).2 :=
  handleReadResult_keeps (fun t' _ _ h => h.trans (callback_draws r _ t'))
    (fun _ _ _ _ h => ⟨h.config, h.cache⟩) ep res temporary (Draws.refl t)

end Callbacks

/-! ### The registrations of io_uring -/

section Uring

variable (port : Port M)

theorem submitOther_draws (op : Operation) (t : DatagramTransport M σ) :
    Draws t (submitOther port op t).2 := ⟨rfl, List.suffix_refl _⟩

theorem submitLoop_draws (is : List ℕ) (t : DatagramTransport M σ) :
    Draws t (submitLoop port is t).2 := by
  induction is generalizing t with
  | nil => exact Draws.refl t
  | cons i is ih =>
    unfold submitLoop
    cases t.writeQueue.elems[i]? with
    | none => exact ih t
    | some d =>
      dsimp only
      split_ifs
      · exact ih t
      · have h := ih (markSubmitted i d (port.submit .write t.manager).1.2
          { t with manager := (port.submit .write t.manager).2 })
        exact ⟨h.config, h.cache⟩
      · exact ⟨rfl, List.suffix_refl _⟩

theorem submitDatagrams_draws (r : CacheRegistration M σ) (app : NextLayer σ)
    (t : DatagramTransport M σ) : Draws t (submitDatagrams port r.register app t).2 := by
  have h := fetchMoreData_draws r app t
  unfold submitDatagrams
  dsimp only
  split_ifs
  · exact h
  · exact h.trans (submitLoop_draws port _ _)

/-- A registration runs `enable` of the transport and changes its mask. -/
theorem registerBy_draws
    {virt : Operation → DatagramTransport M σ → ManagerResult × DatagramTransport M σ}
    (hvirt : ∀ op t, Draws t (virt op t).2) (op : Operation) (t : DatagramTransport M σ) :
    Draws t (registerBy port virt op t) := by
  unfold registerBy Multiplexer.Uring.Model.enableWith
  by_cases hmask : port.mask t.manager &&& op = Operation.none
  · rw [if_pos hmask]
    cases Multiplexer.Base.maskAdd (port.mask t.manager) op with
    | none => exact Draws.refl t
    | some new =>
      have hrun := hvirt op { t with manager := port.maskSet new t.manager }
      have hdraws : Draws t (virt op { t with manager := port.maskSet new t.manager }).2 :=
        ⟨hrun.config, hrun.cache⟩
      dsimp only [bind, pure]
      split_ifs
      · exact hdraws
      · cases Multiplexer.Base.maskDel (port.mask
            (virt op { t with manager := port.maskSet new t.manager }).2.manager) op with
        | none => exact hdraws
        | some old => exact ⟨hdraws.config, hdraws.cache⟩
  · rw [if_neg hmask]
    exact Draws.refl t

/-- The registrations inside an `enable`. -/
def innerRegistration : CacheRegistration M σ where
  register := innerRegister port
  draws op t := by
    unfold innerRegister
    split_ifs
    · exact registerBy_draws port (fun _ t => submitOther_draws port .read t) _ t
    · exact Draws.refl t

/-- The registrations of the io_uring transport. -/
def uringRegistration (app : NextLayer σ) : CacheRegistration M σ where
  register := uringRegister port app
  draws op t := by
    refine registerBy_draws port (fun op t => ?_) op t
    unfold uringEnable
    split_ifs
    · exact submitOther_draws port .read t
    · exact submitDatagrams_draws port (innerRegistration port) app t
    · exact Draws.refl t

end Uring

/-! ### What a write result puts there -/

/-- The buffer of a datagram that was sent completely, as it goes to the cache. -/
def emptied (res : ℤ) (d : Datagram) : List Buffer :=
  if (d.buf.bytes.length : ℤ) ≤ res then [{ d.buf with bytes := [] }] else []

theorem bytes_of_mem_emptied {buf : Buffer} {res : ℤ} {d : Datagram} (h : buf ∈ emptied res d) :
    buf.bytes = [] := by
  unfold emptied at h
  split_ifs at h
  · rw [List.mem_singleton.mp h]
  · cases h

theorem written_cache (it : ℕ) (d : Datagram) (t : DatagramTransport M σ) :
    (t.written it d).config = t.config ∧
      (t.written it d).bufferCache =
        put t.config.maxEnqueuedBytes t.bufferCache { d.buf with bytes := [] } := by
  unfold written returnBuffer bufferCacheHasSpace put
  dsimp only
  by_cases h : t.bufferCache.length < t.config.maxEnqueuedBytes
  · rw [if_pos (decide_eq_true h), if_pos h]
    exact ⟨rfl, rfl⟩
  · rw [if_neg (by simpa using h), if_neg h]
    exact ⟨rfl, rfl⟩

/-- **A write result** puts the buffer of a datagram that was sent completely into the cache. -/
theorem handleWriteResult_cache (res : ℤ) (temporary : Bool) (it : ℕ) (d : Datagram)
    (t : DatagramTransport M σ) :
    (t.handleWriteResult res temporary it d).2.config = t.config ∧
      (t.handleWriteResult res temporary it d).2.bufferCache =
        putAll t.config.maxEnqueuedBytes t.bufferCache (emptied res d) := by
  unfold handleWriteResult
  by_cases hneg : res < 0
  · have hnone : emptied res d = [] := if_neg (by omega)
    rw [if_pos hneg, hnone]
    cases temporary <;> exact ⟨rfl, rfl⟩
  · rw [if_neg hneg]
    by_cases hshort : res.toNat < d.buf.bytes.length
    · have hnone : emptied res d = [] := if_neg (by omega)
      rw [if_pos hshort, hnone]
      exact ⟨rfl, rfl⟩
    · have hone : emptied res d = [{ d.buf with bytes := [] }] := if_pos (by omega)
      rw [if_neg hshort, hone]
      exact written_cache it d t

/-! ### Runs -/

/-- What happens to a transport once it is initialized: what its next layer and its users call, and the
parts that the handlers of both backends are made of. -/
inductive Event (M : Type) where
  | call (c : Call)
  | getBuffer
  | timeout (id : UInt64)
  | recvfrom (outcome : ReadOutcome)
  | recvmsg (outcome : ReadOutcome)
  | readResult (ep : Endpoint) (res : ℤ) (temporary : Bool)
  | fetch
  | sendto (d : Datagram) (outcome : SendOutcome)
  | writeResult (res : ℤ) (temporary : Bool) (it : ℕ)
  | submitted (i : ℕ) (id : UInt64)
  | multiplexer (m : M)

/-- One event. The calls of a callback are made one after the other, so that a callback that calls
`get_buffer` is a run as well. -/
def step (reg : Register M σ) (app : NextLayer σ) (t : DatagramTransport M σ) :
    Event M → DatagramTransport M σ
  | .call c => t.call reg c
  | .getBuffer => t.getBuffer.2
  | .timeout id => (t.handleTimeout reg app id).2
  | .recvfrom outcome => (t.recvfrom outcome).2.2
  | .recvmsg outcome => (t.recvmsg outcome).2
  | .readResult ep res temporary => (t.handleReadResult reg app ep res temporary).2
  | .fetch => (t.fetchMoreData reg app).2
  | .sendto d outcome => (t.sendto d outcome).2.2
  | .writeResult res temporary it =>
    match t.writeQueue.elems[it]? with
    | none => t
    | some d => (t.handleWriteResult res temporary it d).2
  | .submitted i id =>
    match t.writeQueue.elems[i]? with
    | none => t
    | some d => t.markSubmitted i d id
  | .multiplexer m => { t with manager := m }

/-- The transport after `init`. -/
def start (reg : Register M σ) (app : NextLayer σ) (m : M) (s : σ) (beyond : ℕ → UInt8)
    (config : TransportConfig) : DatagramTransport M σ := (init reg app config (fresh m s beyond)).2

/-- All buffers in the cache are empty. -/
def Cached (t : DatagramTransport M σ) : Prop := ∀ buf ∈ t.bufferCache, buf.bytes = []

/-- What the cache hands out is empty: `get_buffer` answers an empty buffer, and a copy is queued with
its own bytes only. -/
structure Clean (t : DatagramTransport M σ) : Prop where
  cached : Cached t
  fetched : t.getBuffer.1.bytes = []
  copied : ∀ bytes ep, (t.pushCopy bytes ep).trace.enqueued = t.trace.enqueued ++ [(bytes, ep)]

/-- The cache holds at most `max_cached_write_buffers_`. -/
def Bounded (t : DatagramTransport M σ) : Prop :=
  t.bufferCache.length ≤ t.config.maxCachedWriteBuffers

instance : DecidablePred (Bounded (M := M) (σ := σ)) := fun t =>
  inferInstanceAs (Decidable (t.bufferCache.length ≤ t.config.maxCachedWriteBuffers))

/-- The buffers that an event empties. -/
def added (t : DatagramTransport M σ) : Event M → List Buffer
  | .writeResult res _ it =>
    match t.writeQueue.elems[it]? with
    | none => []
    | some d => emptied res d
  | _ => []

/-- An event empties no more buffers than there is room for, or `max_enqueued_bytes_` is no limit above
`max_cached_write_buffers_`. -/
def Fits (t : DatagramTransport M σ) (e : Event M) : Prop :=
  added t e ≠ [] → t.config.maxEnqueuedBytes ≤ t.config.maxCachedWriteBuffers ∨
    t.bufferCache.length + (added t e).length ≤ t.config.maxCachedWriteBuffers

/-- **An empty cache entry leaves no trace.** -/
theorem Cached.clean {t : DatagramTransport M σ} (h : Cached t) : Clean t where
  cached := h
  fetched := by
    unfold getBuffer
    cases hc : t.bufferCache with
    | nil => rfl
    | cons buf rest =>
      refine h buf ?_
      rw [hc]
      exact List.mem_cons_self
  copied bytes ep := by
    obtain ⟨buf, heap, cache, heq, hbytes⟩ := pushCopy_eq bytes ep t
    rw [heq]
    change t.trace.enqueued ++ [(buf.bytes, ep)] = _
    rw [hbytes]

section Runs

variable (r : CacheRegistration M σ) (app : NextLayer σ)

/-- Every event but a write result draws from the cache at most. -/
theorem step_draws (t : DatagramTransport M σ) {e : Event M}
    (he : ∀ res temporary it, e ≠ .writeResult res temporary it) :
    Draws t (step r.register app t e) := by
  cases e with
  | call c => exact call_draws r t c
  | getBuffer => exact getBuffer_draws t
  | timeout id => exact callback_draws r _ t
  | recvfrom outcome => cases outcome <;> exact ⟨rfl, List.suffix_refl _⟩
  | recvmsg outcome => cases outcome <;> exact ⟨rfl, List.suffix_refl _⟩
  | readResult ep res temporary => exact readResult_draws r app ep res temporary t
  | fetch => exact fetchMoreData_draws r app t
  | sendto d outcome =>
    cases outcome with
    | sent =>
      unfold step sendto
      dsimp only
      split_ifs <;> exact ⟨rfl, List.suffix_refl _⟩
    | failed temporary => exact Draws.refl t
  | writeResult res temporary it => exact absurd rfl (he res temporary it)
  | submitted i id =>
    unfold step
    dsimp only
    cases t.writeQueue.elems[i]? with
    | none => exact Draws.refl t
    | some d => exact ⟨rfl, List.suffix_refl _⟩
  | multiplexer m => exact ⟨rfl, List.suffix_refl _⟩

theorem step_cache (t : DatagramTransport M σ) (e : Event M) :
    (step r.register app t e).config = t.config ∧
      (added t e = [] ∧ (step r.register app t e).bufferCache <:+ t.bufferCache ∨
        (step r.register app t e).bufferCache =
          putAll t.config.maxEnqueuedBytes t.bufferCache (added t e)) := by
  by_cases he : ∃ res temporary it, e = .writeResult res temporary it
  · obtain ⟨res, temporary, it, rfl⟩ := he
    unfold step added
    dsimp only
    cases t.writeQueue.elems[it]? with
    | none => exact ⟨rfl, .inr rfl⟩
    | some d =>
      obtain ⟨hconfig, hcache⟩ := handleWriteResult_cache res temporary it d t
      exact ⟨hconfig, .inr hcache⟩
  · have hdraws := step_draws r app t fun res temporary it heq => he ⟨res, temporary, it, heq⟩
    refine ⟨hdraws.config, .inl ⟨?_, hdraws.cache⟩⟩
    cases e with
    | writeResult res temporary it => exact absurd ⟨res, temporary, it, rfl⟩ he
    | _ => rfl

/-- **The cache is a pool** of the transport. -/
theorem serves : Serves (step r.register app) bufferCache (fun t => t.config.maxEnqueuedBytes)
    (fun t => t.config.maxCachedWriteBuffers) added where
  capacity_step t e := by rw [(step_cache r app t e).1]
  limit_step t e := by rw [(step_cache r app t e).1]
  pool_step t e := (step_cache r app t e).2

theorem start_cache (m : M) (s : σ) (beyond : ℕ → UInt8) (config : TransportConfig) :
    (start r.register app m s beyond config).config = config ∧
      (start r.register app m s beyond config).bufferCache = [] := by
  have hdraws := calls_draws r (app.init s).2.1
    { fresh m s beyond with config := config, nextLayer := (app.init s).1 }
  exact ⟨hdraws.config, List.suffix_nil.mp hdraws.cache⟩

/-- **The cache is clean** in every run. -/
theorem clean_run (m : M) (s : σ) (beyond : ℕ → UInt8) (config : TransportConfig)
    (es : List (Event M)) :
    Always (step r.register app) Clean (start r.register app m s beyond config) es := by
  have hadded : ∀ t (e : Event M), ∀ buf ∈ added (σ := σ) t e, buf.bytes = [] := by
    intro t e buf hbuf
    cases e with
    | writeResult res temporary it =>
      unfold added at hbuf
      dsimp only at hbuf
      cases hd : t.writeQueue.elems[it]? with
      | none =>
        rw [hd] at hbuf
        cases hbuf
      | some d =>
        rw [hd] at hbuf
        exact bytes_of_mem_emptied hbuf
    | _ => cases hbuf
  have hstart : Cached (start r.register app m s beyond config) := by
    intro buf hbuf
    rw [(start_cache r app m s beyond config).2] at hbuf
    cases hbuf
  exact ((serves r app).always_forall hadded hstart es).imp fun _ h => Cached.clean h

theorem bounded_start (m : M) (s : σ) (beyond : ℕ → UInt8) (config : TransportConfig) :
    Bounded (start r.register app m s beyond config) := by
  unfold Bounded
  rw [(start_cache r app m s beyond config).2]
  exact Nat.zero_le _

/-- **The cache is bounded** in a run exactly if its write results fit. -/
theorem bounded_run_iff (m : M) (s : σ) (beyond : ℕ → UInt8) (config : TransportConfig)
    (es : List (Event M)) :
    Always (step r.register app) Bounded (start r.register app m s beyond config) es ↔
      Along (step r.register app) Fits (start r.register app m s beyond config) es :=
  (serves r app).always_le_iff (bounded_start r app m s beyond config) es

/-- With settings in this order no run gets beyond the limit. -/
theorem bounded_of_settings (m : M) (s : σ) (beyond : ℕ → UInt8) {config : TransportConfig}
    (h : config.maxEnqueuedBytes ≤ config.maxCachedWriteBuffers) (es : List (Event M)) :
    Always (step r.register app) Bounded (start r.register app m s beyond config) es := by
  refine (serves r app).always_le (bounded_start r app m s beyond config) ?_ es
  rw [(start_cache r app m s beyond config).1]
  exact h

theorem run_limit (m : M) (s : σ) (beyond : ℕ → UInt8) (config : TransportConfig)
    (es : List (Event M)) :
    (run (step r.register app) (start r.register app m s beyond config)
      es).config.maxCachedWriteBuffers = config.maxCachedWriteBuffers := by
  have hrun := (serves r app).run_limit (start r.register app m s beyond config) es
  rw [(start_cache r app m s beyond config).1] at hrun
  exact hrun

end Runs

/-! ### Sessions -/

section Sessions

variable {reg : Register M σ} {app : NextLayer σ} {t₀ t : DatagramTransport M σ}

theorem written_reached (h : Reaches (step reg app) t₀ t) (res : ℤ) (temporary : Bool) {it : ℕ}
    {d : Datagram} (hd : t.writeQueue.elems[it]? = some d) :
    Reaches (step reg app) t₀ (t.handleWriteResult res temporary it d).2 := by
  have hstep := h.next (.writeResult res temporary it)
  unfold step at hstep
  dsimp only at hstep
  rw [hd] at hstep
  exact hstep

theorem sendto_writeQueue (d : Datagram) (outcome : SendOutcome) (t : DatagramTransport M σ) :
    (t.sendto d outcome).2.2.writeQueue = t.writeQueue := by
  unfold sendto
  cases outcome with
  | sent => dsimp only; split_ifs <;> rfl
  | failed temporary => rfl

theorem readLoop_reached (n : ℕ) (kernel : List ReadOutcome) (h : Reaches (step reg app) t₀ t) :
    Reaches (step reg app) t₀ (readLoop reg app n kernel t).2 := by
  induction n generalizing kernel t with
  | zero => exact h
  | succ n ih =>
    unfold readLoop
    by_cases hspace : t.readBufferSize = 0
    · rw [if_pos hspace]
      exact h
    · rw [if_neg hspace]
      dsimp only
      have hread : Reaches (step reg app) t₀ (handleReadResult reg app
          (t.recvfrom (kernel.headD (.failed true))).1 (t.recvfrom (kernel.headD (.failed true))).2.1
          (kernel.headD (.failed true)).temporary (t.recvfrom (kernel.headD (.failed true))).2.2).2 :=
        (h.next (.recvfrom (kernel.headD (.failed true)))).next (.readResult _ _ _)
      generalize handleReadResult reg app _ _ _ _ = o at hread ⊢
      obtain ⟨v, t'⟩ := o
      cases v with
      | ok => exact ih kernel.tail hread
      | error | done | temporaryError => exact hread

theorem handleWriteEvent_reached (h : Reaches (step reg app) t₀ t) (kernel : List SendOutcome) :
    Reaches (step reg app) t₀ (t.handleWriteEvent reg app kernel).2 := by
  refine writeLoop_keeps (fun _ ht => ht.next .fetch) (fun t d outcome hd ht => ?_) _ kernel h
  have hsent := ht.next (.sendto d outcome)
  refine written_reached hsent _ _ ?_
  change (t.sendto d outcome).2.2.writeQueue.elems[0]? = some d
  rw [sendto_writeQueue, hd]

theorem session_step_reached (session : Session M σ) (e : Model.Event)
    (h : Reaches (step reg app) t₀ session.transport) :
    Reaches (step reg app) t₀ (session.step reg app e).transport := by
  unfold Session.step
  by_cases hfailed : session.failed = true
  · rw [if_pos hfailed]
    exact h
  · rw [if_neg hfailed]
    cases e with
    | readEvent kernel => exact readLoop_reached _ kernel h
    | writeEvent kernel => exact handleWriteEvent_reached h kernel
    | timeout id => exact h.next (.timeout id)
    | call c => exact h.next (.call c)

/-- **The handlers** of an event-driven transport make such runs. -/
theorem session_reached (m : M) (s : σ) (beyond : ℕ → UInt8) (config : TransportConfig)
    (es : List Model.Event) :
    Reaches (step reg app) (start reg app m s beyond config)
      (run (Session.step reg app) (Session.start reg app m s beyond config) es).transport := by
  have hall : Always (Session.step reg app)
      (fun session => Reaches (step reg app) (start reg app m s beyond config) session.transport)
      (Session.start reg app m s beyond config) es :=
    always_of_step session_step_reached es (Reaches.refl _)
  exact hall.last

/-- So in every session the cache is clean, and bounded with settings in the right order. -/
theorem session_clean (r : CacheRegistration M σ) (app : NextLayer σ) (m : M) (s : σ)
    (beyond : ℕ → UInt8) (config : TransportConfig) (es : List Model.Event) :
    Clean (run (Session.step r.register app) (Session.start r.register app m s beyond config)
        es).transport ∧
      (config.maxEnqueuedBytes ≤ config.maxCachedWriteBuffers →
        Bounded (run (Session.step r.register app)
          (Session.start r.register app m s beyond config) es).transport) := by
  obtain ⟨es', hrun⟩ : Reaches (step r.register app) (start r.register app m s beyond config) _ :=
    session_reached m s beyond config es
  rw [← hrun]
  exact ⟨(clean_run r app m s beyond config es').last,
    fun h => (bounded_of_settings r app m s beyond h es').last⟩

section Uring

variable (port : Port M)

theorem submitOther_reached (h : Reaches (step reg app) t₀ t) (op : Operation) :
    Reaches (step reg app) t₀ (submitOther port op t).2 :=
  h.next (.multiplexer (port.submit op t.manager).2)

theorem submitLoop_reached (is : List ℕ) (h : Reaches (step reg app) t₀ t) :
    Reaches (step reg app) t₀ (submitLoop port is t).2 := by
  induction is generalizing t with
  | nil => exact h
  | cons i is ih =>
    unfold submitLoop
    cases hd : t.writeQueue.elems[i]? with
    | none => exact ih h
    | some d =>
      dsimp only
      have hm := h.next (.multiplexer (port.submit .write t.manager).2)
      split_ifs
      · exact ih h
      · have hmark := hm.next (.submitted i (port.submit .write t.manager).1.2)
        change Reaches (step reg app) t₀ (match t.writeQueue.elems[i]? with
          | none => _
          | some d => _) at hmark
        rw [hd] at hmark
        exact ih hmark
      · exact hm

theorem submitDatagrams_reached (h : Reaches (step reg app) t₀ t) :
    Reaches (step reg app) t₀ (submitDatagrams port reg app t).2 := by
  have hfetch := h.next .fetch
  unfold submitDatagrams
  dsimp only
  split_ifs
  · exact hfetch
  · exact submitLoop_reached port _ hfetch

end Uring

end Sessions

section Completions

variable (port : Port M) (app : NextLayer σ) {t₀ t : DatagramTransport M σ}

theorem handleCompletion_reached (h : Reaches (step (uringRegister port app) app) t₀ t)
    (op : Operation) (res : ℤ) (temporary : Bool) (id : UInt64) :
    Reaches (step (uringRegister port app) app) t₀
      (t.handleCompletion port app op res temporary id).2 := by
  unfold handleCompletion
  split_ifs
  · have hread := h.next (.readResult t.readAddr res temporary)
    change Reaches _ t₀
      (handleReadResult (uringRegister port app) app t.readAddr res temporary t).2 at hread
    generalize handleReadResult (uringRegister port app) app _ _ _ _ = o at hread ⊢
    obtain ⟨v, t'⟩ := o
    cases v with
    | ok => exact submitOther_reached port hread .read
    | temporaryError => exact submitOther_reached port hread .pollRead
    | done | error => exact hread
  · exact submitOther_reached port h .read
  · cases t.writeQueue.elems.findIdx? (·.id = id) with
    | none => exact h
    | some it =>
      dsimp only
      cases hd : t.writeQueue.elems[it]? with
      | none => exact h
      | some d =>
        have hwritten := written_reached h res temporary hd
        dsimp only
        generalize handleWriteResult res temporary it d t = o at hwritten ⊢
        obtain ⟨v, t'⟩ := o
        cases v with
        | ok => exact submitDatagrams_reached port hwritten
        | temporaryError => exact submitOther_reached port hwritten .pollWrite
        | done | error => exact hwritten
  · exact submitDatagrams_reached port h
  · exact h

theorem completeStep_reached (session : Session M σ) (e : Completion M)
    (h : Reaches (step (uringRegister port app) app) t₀ session.transport) :
    Reaches (step (uringRegister port app) app) t₀ (session.completeStep port app e).transport := by
  unfold Session.completeStep
  by_cases hfailed : session.failed = true
  · rw [if_pos hfailed]
    exact h
  · rw [if_neg hfailed]
    cases e with
    | read outcome => exact handleCompletion_reached port app (h.next (.recvmsg outcome)) _ _ _ _
    | pollRead => exact handleCompletion_reached port app h _ _ _ _
    | write res temporary id => exact handleCompletion_reached port app h _ _ _ _
    | pollWrite => exact handleCompletion_reached port app h _ _ _ _
    | timeout id => exact h.next (.timeout id)
    | call c => exact h.next (.call c)
    | multiplexer m => exact h.next (.multiplexer m)

/-- **The completions** of an io_uring transport make such runs. -/
theorem completions_reached (m : M) (s : σ) (beyond : ℕ → UInt8) (config : TransportConfig)
    (es : List (Completion M)) :
    Reaches (step (uringRegister port app) app) (uringStart port app m s beyond config)
      (run (Session.completeStep port app) ⟨uringStart port app m s beyond config, false⟩
        es).transport := by
  have hall : Always (Session.completeStep port app)
      (fun session => Reaches (step (uringRegister port app) app)
        (uringStart port app m s beyond config) session.transport)
      ⟨uringStart port app m s beyond config, false⟩ es :=
    always_of_step (completeStep_reached port app) es (Reaches.refl _)
  exact hall.last

theorem completions_clean (m : M) (s : σ) (beyond : ℕ → UInt8) (config : TransportConfig)
    (es : List (Completion M)) :
    Clean (run (Session.completeStep port app) ⟨uringStart port app m s beyond config, false⟩
        es).transport ∧
      (config.maxEnqueuedBytes ≤ config.maxCachedWriteBuffers → Bounded
        (run (Session.completeStep port app) ⟨uringStart port app m s beyond config, false⟩
          es).transport) := by
  obtain ⟨es', hrun⟩ := completions_reached port app m s beyond config es
  rw [← hrun]
  exact ⟨(clean_run (uringRegistration port app) app m s beyond config es').last,
    fun h => (bounded_of_settings (uringRegistration port app) app m s beyond h es').last⟩

end Completions

end NetworkDriver.Net.Datagrams.Cache
