import NetworkDriver.Library.Vectors
import NetworkDriver.Net.Types

/-! # The stream transport

`transport_base` and `stream_transport_base<ManagerBase, NextLayer>` with their event-driven
specialization `stream_transport<event_handler, NextLayer>`.

The `ManagerBase` part is a type `M`: what it holds and what registering for an operation does is the
business of the multiplexer behind it, so `register_reading` and `register_writing` are the parameter
`reg`. The next layer is a state type `σ` with its callbacks (`NextLayer`); a callback answers the
calls it makes on its parent, which are run in their order.

The kernel is a script of outcomes, one for each `recv` or `sendmsg`. `Trace` records what went in
and out; no operation reads it. -/

namespace NetworkDriver.Net.StreamTransport.Model

open NetworkDriver.Library.Vectors NetworkDriver.Net.Types

/-! ### The next layer -/

/-- The calls of a next layer on its parent. -/
inductive Call where
  | configureNextRead (policy : ReceivePolicy)
  | enqueue (bytes : List UInt8)
  | enqueueBuffer (bytes spare : List UInt8)
  | registerReading
  | registerWriting
  deriving DecidableEq

/-- The callbacks of the next protocol layer. -/
structure NextLayer (σ : Type) where
  init : σ → σ × List Call × Bool
  hasMoreData : σ → Bool
  produce : σ → σ × List Call × ManagerResult
  consume : σ → List UInt8 → σ × List Call × ManagerResult
  handleTimeout : σ → UInt64 → σ × List Call × ManagerResult

/-! ### The state -/

/-- `struct iovec`. -/
structure IoVec where
  base : ℕ
  len : ℕ
  deriving DecidableEq, Repr

/-- The settings of `transport_base`, all of type `size_t`. -/
structure TransportConfig where
  maxConsecutiveFetches : ℕ := 10
  maxConsecutiveReads : ℕ := 20
  maxConsecutiveWrites : ℕ := 20
  maxEnqueuedBytes : ℕ := 16384
  maxCachedWriteBuffers : ℕ := 10

/-- What passed through a transport: the bytes of all enqueued buffers, the bytes the kernel took,
the bytes it delivered, the spans handed to `consume` with the policy in force, and what it answered. -/
structure Trace where
  enqueued : List UInt8 := []
  taken : List UInt8 := []
  delivered : List UInt8 := []
  consumed : List (ReceivePolicy × List UInt8) := []
  verdicts : List ManagerResult := []

/-- `stream_transport_base`, with the members it inherits from `transport_base`. -/
structure StreamTransportBase (M σ : Type) where
  manager : M
  nextLayer : σ
  memory : Memory
  config : TransportConfig := {}
  bufferCache : List Vec := []
  received : ℕ := 0
  minReadSize : ℕ := 0
  numEnqueuedBytes : ℕ := 0
  readBuffer : List UInt8 := []
  writeQueue : List Vec := []
  iovecs : List IoVec := []
  policy : ReceivePolicy := .stop
  trace : Trace := {}

variable {M σ : Type}

/-- `manager_base::register_reading` and `register_writing`, by the operation registered for. -/
abbrev Register (M σ : Type) := Operation → StreamTransportBase M σ → StreamTransportBase M σ

namespace StreamTransportBase

/-- A transport right after its construction. -/
def fresh (manager : M) (nextLayer : σ) (config : TransportConfig) : StreamTransportBase M σ :=
  { manager := manager, nextLayer := nextLayer, memory := Memory.empty, config := config }

/-! ### `transport_base` -/

/-- `buffer_cache_has_space`. -/
def bufferCacheHasSpace (t : StreamTransportBase M σ) : Bool :=
  t.bufferCache.length < t.config.maxEnqueuedBytes

/-- `get_buffer`: the oldest cached buffer, or a new one. -/
def getBuffer (t : StreamTransportBase M σ) : Vec × StreamTransportBase M σ :=
  match t.bufferCache with
  | [] => (Vec.null, t)
  | buf :: rest => (buf, { t with bufferCache := rest })

/-- `return_buffer`: answers what is left of the caller's buffer, which is moved from if the cache
takes it. -/
def returnBuffer (t : StreamTransportBase M σ) (buf : Vec) : Vec × StreamTransportBase M σ :=
  if t.bufferCacheHasSpace then (Vec.null, { t with bufferCache := t.bufferCache ++ [buf] })
  else (buf, t)

/-! ### Reading -/

/-- `configure_next_read`. -/
def configureNextRead (p : ReceivePolicy) (t : StreamTransportBase M σ) : StreamTransportBase M σ :=
  { t with
    received := 0
    minReadSize := p.minSize.toNat
    readBuffer := t.readBuffer.take p.maxSize.toNat ++
      List.replicate (p.maxSize.toNat - t.readBuffer.length) 0
    policy := p }

/-- The size of the span `read_buffer()` answers. -/
def readBufferSize (t : StreamTransportBase M σ) : ℕ := subSize t.readBuffer.length t.received

/-! ### Enqueueing -/

/-- `enqueue(byte_buffer&&)` up to the registration: the buffer goes to the end of the queue. -/
def push (buf : Vec) (t : StreamTransportBase M σ) : StreamTransportBase M σ :=
  { t with
    iovecs := t.iovecs ++ [⟨buf.data, buf.size⟩]
    numEnqueuedBytes := t.numEnqueuedBytes + buf.size
    writeQueue := t.writeQueue ++ [buf]
    trace := { t.trace with enqueued := t.trace.enqueued ++ t.memory.bytes buf } }

/-- A buffer of the caller, with `bytes` in use and `spare` behind them, is pushed. -/
def pushNew (bytes spare : List UInt8) (t : StreamTransportBase M σ) : StreamTransportBase M σ :=
  let (memory, buf) := t.memory.alloc bytes spare
  push buf { t with memory := memory }

/-- The bytes are copied to a cached or a new buffer, which is pushed. -/
def pushCopy (bytes : List UInt8) (t : StreamTransportBase M σ) : StreamTransportBase M σ :=
  let (buf, t) := t.getBuffer
  let (memory, buf) := t.memory.assign buf bytes
  push buf { t with memory := memory }

variable (reg : Register M σ)

/-- `enqueue(byte_buffer&&)`. -/
def enqueueBuffer (bytes spare : List UInt8) (t : StreamTransportBase M σ) :
    StreamTransportBase M σ :=
  reg .write (t.pushNew bytes spare)

/-- `enqueue(const_byte_span)`. -/
def enqueue (bytes : List UInt8) (t : StreamTransportBase M σ) : StreamTransportBase M σ :=
  reg .write (t.pushCopy bytes)

/-! ### Callbacks -/

/-- One call of the next layer. -/
def call (t : StreamTransportBase M σ) : Call → StreamTransportBase M σ
  | .configureNextRead p => t.configureNextRead p
  | .enqueue bytes => t.enqueue reg bytes
  | .enqueueBuffer bytes spare => t.enqueueBuffer reg bytes spare
  | .registerReading => reg .read t
  | .registerWriting => reg .write t

/-- The next layer goes to its new state and its calls are run in order. -/
def callback (answer : σ × List Call × ManagerResult) (t : StreamTransportBase M σ) :
    ManagerResult × StreamTransportBase M σ :=
  (answer.2.2, answer.2.1.foldl (call reg) { t with nextLayer := answer.1 })

variable (app : NextLayer σ)

/-- `has_more_data()` of the next layer. -/
def hasMoreData (t : StreamTransportBase M σ) : Bool := app.hasMoreData t.nextLayer

/-- `init`, after the settings are read: the answer is whether it succeeded. -/
def init (config : TransportConfig) (t : StreamTransportBase M σ) :
    Bool × StreamTransportBase M σ :=
  let (s, calls, ok) := app.init t.nextLayer
  (ok, calls.foldl (call reg) { t with config := config, nextLayer := s })

/-- `handle_timeout`. -/
def handleTimeout (id : UInt64) (t : StreamTransportBase M σ) :
    ManagerResult × StreamTransportBase M σ :=
  callback reg (app.handleTimeout t.nextLayer id) t

/-- A span is handed to `consume`, which answers `verdict`. -/
def recordSpan (span : List UInt8) (verdict : ManagerResult) (t : StreamTransportBase M σ) :
    StreamTransportBase M σ :=
  { t with trace := { t.trace with
    consumed := t.trace.consumed ++ [(t.policy, span)]
    verdicts := t.trace.verdicts ++ [verdict] } }

/-- `next_layer_.consume(*this, span)`. -/
def consume (span : List UInt8) (t : StreamTransportBase M σ) :
    ManagerResult × StreamTransportBase M σ :=
  callback reg (app.consume t.nextLayer span) (t.recordSpan span (app.consume t.nextLayer span).2.2)

/-- `handle_read_result`; `temporary` is `last_socket_error_is_temporary()`. -/
def handleReadResult (readRes : ℤ) (temporary : Bool) (t : StreamTransportBase M σ) :
    ManagerResult × StreamTransportBase M σ :=
  if readRes < 0 then
    (if temporary then .temporaryError else .error, t)
  else if readRes = 0 then
    (.done, t)
  else
    let t := { t with received := t.received + readRes.toNat }
    if t.minReadSize ≤ t.received then
      match consume reg app (t.readBuffer.take t.received) t with
      | (.error, t) => (.error, t)
      | (_, t) => (.ok, { t with received := 0 })
    else
      (.ok, t)

/-! ### Writing -/

/-- `done_writing`. -/
def doneWriting (t : StreamTransportBase M σ) : Bool := t.writeQueue.isEmpty && !t.hasMoreData app

/-- The loop of `fetch_more_data`, with the number of fetches still allowed. -/
def fetchLoop : ℕ → StreamTransportBase M σ → StreamTransportBase M σ
  | 0, t => t
  | i + 1, t =>
    if t.numEnqueuedBytes < t.config.maxEnqueuedBytes then
      if t.hasMoreData app then
        fetchLoop i (callback reg (app.produce t.nextLayer) t).2
      else t
    else t

/-- `fetch_more_data`. -/
def fetchMoreData (t : StreamTransportBase M σ) : ManagerResult × StreamTransportBase M σ :=
  let t := fetchLoop reg app t.config.maxConsecutiveFetches t
  (if t.doneWriting app then .done else .ok, t)

/-- One pass of the loop of `remove_written_data_from_queue`: `num_bytes` afterwards, whether the
buffer was found empty, and the buffer. In the branch that cuts the buffer `num_bytes` stays as it
is. -/
def removeStep (numBytes : ℕ) (buf : Vec) (t : StreamTransportBase M σ) :
    ℕ × ℕ × Vec × StreamTransportBase M σ :=
  let (numBytes, buf, t) :=
    if buf.size ≤ numBytes then
      (numBytes - buf.size, ({ buf with size := 0 } : Vec), t)
    else
      let (memory, buf) := t.memory.eraseFront buf numBytes
      (numBytes, buf, { t with memory := memory })
  if buf.size = 0 then
    let (buf, t) := t.returnBuffer buf
    (numBytes, 1, buf, t)
  else
    (numBytes, 0, buf, t)

/-- The loop over the queue: the buffers as it leaves them, and how many of them it found empty. -/
def removeLoop : ℕ → List Vec → StreamTransportBase M σ → List Vec × ℕ × StreamTransportBase M σ
  | _, [], t => ([], 0, t)
  | numBytes, buf :: rest, t =>
    let (numBytes, empty, buf, t) := removeStep numBytes buf t
    if numBytes = 0 then
      (buf :: rest, empty, t)
    else
      let (rest, numEmptyBuffers, t) := removeLoop numBytes rest t
      (buf :: rest, empty + numEmptyBuffers, t)

/-- `remove_written_data_from_queue`. -/
def removeWrittenDataFromQueue (numBytes : ℕ) (t : StreamTransportBase M σ) :
    StreamTransportBase M σ :=
  if numBytes = 0 then t
  else
    let t := { t with numEnqueuedBytes := subSize t.numEnqueuedBytes numBytes }
    let (bufs, numEmptyBuffers, t) := removeLoop numBytes t.writeQueue t
    { t with
      writeQueue := bufs.drop numEmptyBuffers
      iovecs := t.iovecs.drop numEmptyBuffers }

/-- `handle_write_result`. -/
def handleWriteResult (writeRes : ℤ) (temporary : Bool) (t : StreamTransportBase M σ) :
    ManagerResult × StreamTransportBase M σ :=
  if writeRes < 0 then
    (if temporary then .temporaryError else .error, t)
  else
    (.ok, t.removeWrittenDataFromQueue writeRes.toNat)

/-! ### The kernel -/

/-- The number of bytes offered to `sendmsg`. -/
def offered (t : StreamTransportBase M σ) : ℕ := (t.iovecs.map IoVec.len).sum

/-- The memory the iovecs describe. -/
def described (t : StreamTransportBase M σ) : List UInt8 :=
  t.iovecs.flatMap fun v => t.memory.view v.base v.len

end StreamTransportBase

/-- The outcome of a `recv`: bytes, the end of the stream, or an error. -/
inductive ReadOutcome where
  | data (bytes : List UInt8)
  | closed
  | failed (temporary : Bool)
  deriving DecidableEq

/-- The outcome of a `sendmsg`: up to `k` bytes are taken, or it fails. -/
inductive WriteOutcome where
  | took (k : ℕ)
  | failed (temporary : Bool)
  deriving DecidableEq

/-- The most bytes one `recv` transfers on Linux. -/
def maxRwCount : ℕ := 0x7ffff000

namespace StreamTransportBase

/-- `recv` on `read_buffer()`: at most the size of the span is written behind the received bytes. -/
def recv (t : StreamTransportBase M σ) : ReadOutcome → ℤ × StreamTransportBase M σ
  | .data bytes =>
    let chunk := bytes.take (min t.readBufferSize maxRwCount)
    (chunk.length,
      { t with
        readBuffer := t.readBuffer.take t.received ++ chunk ++
          t.readBuffer.drop (t.received + chunk.length)
        trace := { t.trace with delivered := t.trace.delivered ++ chunk } })
  | .closed => (0, t)
  | .failed _ => (-1, t)

/-- `writev` on `iovecs()`: the kernel takes the first bytes of the memory they describe. -/
def writev (t : StreamTransportBase M σ) : WriteOutcome → ℤ × StreamTransportBase M σ
  | .took k =>
    let k := min k t.offered
    (k, { t with trace := { t.trace with taken := t.trace.taken ++ t.described.take k } })
  | .failed _ => (-1, t)

end StreamTransportBase

/-- `last_socket_error_is_temporary()` after a `recv`. -/
def ReadOutcome.temporary : ReadOutcome → Bool
  | .failed temporary => temporary
  | _ => false

/-- `last_socket_error_is_temporary()` after a `sendmsg`. -/
def WriteOutcome.temporary : WriteOutcome → Bool
  | .failed temporary => temporary
  | _ => false

/-! ### `stream_transport<event_handler, NextLayer>` -/

namespace StreamTransportBase

variable (reg : Register M σ) (app : NextLayer σ)

/-- The loop of `handle_read_event`. A kernel without more outcomes would block. -/
def readLoop : ℕ → List ReadOutcome → StreamTransportBase M σ → ManagerResult × StreamTransportBase M σ
  | 0, _, t => (.ok, t)
  | n + 1, kernel, t =>
    let outcome := kernel.headD (.failed true)
    let (readRes, t) := t.recv outcome
    match handleReadResult reg app (toInt readRes) outcome.temporary t with
    | (.ok, t) => readLoop n kernel.tail t
    | verdict => verdict

/-- `handle_read_event`. -/
def handleReadEvent (kernel : List ReadOutcome) (t : StreamTransportBase M σ) :
    ManagerResult × StreamTransportBase M σ :=
  readLoop reg app t.config.maxConsecutiveReads kernel t

/-- One pass of the loop of `handle_write_event`: the result, if the pass returns one. -/
def writePass (outcome : WriteOutcome) (t : StreamTransportBase M σ) :
    Option ManagerResult × StreamTransportBase M σ :=
  match fetchMoreData reg app t with
  | (.done, t) => (some .done, t)
  | (_, t) =>
    let (writeRes, t) := t.writev outcome
    match t.handleWriteResult (toInt writeRes) outcome.temporary with
    | (.error, t) => (some .error, t)
    | (.temporaryError, t) => (some .temporaryError, t)
    | (_, t) => (none, t)

/-- The loop of `handle_write_event`: one pass, and up to `n` more. -/
def writeLoop : ℕ → List WriteOutcome → StreamTransportBase M σ →
    ManagerResult × StreamTransportBase M σ
  | n, kernel, t =>
    match writePass reg app (kernel.headD (.failed true)) t, n with
    | (some verdict, t), _ => (verdict, t)
    | (none, t), 0 => (if t.doneWriting app then .done else .ok, t)
    | (none, t), n + 1 => writeLoop n kernel.tail t

/-- `handle_write_event`. -/
def handleWriteEvent (kernel : List WriteOutcome) (t : StreamTransportBase M σ) :
    ManagerResult × StreamTransportBase M σ :=
  writeLoop reg app t.config.maxConsecutiveWrites kernel t

end StreamTransportBase

/-! ### The manager part under a readiness multiplexer -/

/-- `register_reading` and `register_writing` under epoll or kqueue, as far as the transport can see:
`enable` adds the operation to the mask of the manager. -/
def eventRegister : Register Operation σ := fun op t =>
  if t.manager &&& op = Operation.none then { t with manager := t.manager ||| op } else t

/-! ### Sessions -/

open StreamTransportBase

/-- A transport, and whether one of its handlers answered `error`: its manager is removed then. -/
structure Session (M σ : Type) where
  transport : StreamTransportBase M σ
  failed : Bool := false

/-- What happens to a transport once it is initialized. -/
inductive Event where
  | readEvent (kernel : List ReadOutcome)
  | writeEvent (kernel : List WriteOutcome)
  | timeout (id : UInt64)
  | enqueue (bytes : List UInt8)
  | enqueueBuffer (bytes spare : List UInt8)

namespace Session

variable (reg : Register M σ) (app : NextLayer σ)

/-- The session after `init`. -/
def start (m : M) (s : σ) (config : TransportConfig) : Session M σ :=
  ⟨(init reg app config (fresh m s {})).2, false⟩

/-- The session after a handler answered. -/
def answered (o : ManagerResult × StreamTransportBase M σ) : Session M σ := ⟨o.2, o.1 = .error⟩

def step (s : Session M σ) (e : Event) : Session M σ :=
  if s.failed then s
  else match e with
    | .readEvent kernel => answered (s.transport.handleReadEvent reg app kernel)
    | .writeEvent kernel => answered (s.transport.handleWriteEvent reg app kernel)
    | .timeout id => { s with transport := (s.transport.handleTimeout reg app id).2 }
    | .enqueue bytes => { s with transport := s.transport.enqueue reg bytes }
    | .enqueueBuffer bytes spare => { s with transport := s.transport.enqueueBuffer reg bytes spare }

end Session

end NetworkDriver.Net.StreamTransport.Model
