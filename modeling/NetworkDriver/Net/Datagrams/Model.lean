import NetworkDriver.Library.Run
import NetworkDriver.Library.Slots
import NetworkDriver.Net.Multiplexer.Uring.Model
import NetworkDriver.Net.StreamTransport.Model

/-! # The datagram transport

`datagram_transport<ManagerBase, NextLayer>` with its two specializations,
`event_datagram_transport` and `uring_datagram_transport`. As for the stream transport, the
`ManagerBase` part is a type `M`, what registering for an operation does is the parameter `reg`, and
a callback of the next layer answers the calls it makes on its parent. Buffers are values with an
address, and the queue of datagrams is a deque with slots, which the datagrams of the io_uring
transport hold pointers to.

Every byte in the read buffer carries where it came from, and `Trace` records what went in and out;
no operation reads them. -/

namespace NetworkDriver.Net.Datagrams.Model

open NetworkDriver.Library.Slots NetworkDriver.Net.Types
open NetworkDriver.Net.StreamTransport.Model (TransportConfig IoVec)

/-! ### The next layer -/

/-- `v4_endpoint`. -/
structure Endpoint where
  address : UInt32
  port : UInt16
  deriving DecidableEq, Repr

/-- The calls of a next layer on its parent. -/
inductive Call where
  | configureNextRead (policy : ReceivePolicy)
  | enqueue (bytes : List UInt8) (ep : Endpoint)
  | enqueueBuffer (bytes : List UInt8) (capacity : ℕ) (ep : Endpoint)
  | registerReading
  | registerWriting
  deriving DecidableEq

/-- The callbacks of the next protocol layer. -/
structure NextLayer (σ : Type) where
  init : σ → σ × List Call × Bool
  hasMoreData : σ → Bool
  produce : σ → σ × List Call × ManagerResult
  consume : σ → List UInt8 → Endpoint → σ × List Call × ManagerResult
  handleTimeout : σ → UInt64 → σ × List Call × ManagerResult

/-! ### The state -/

/-- Where a byte came from: the sender, the number of the datagram and the place in it. -/
structure Origin where
  source : Endpoint
  datagram : ℕ
  pos : ℕ
  deriving DecidableEq, Repr

/-- A byte of the read buffer. -/
structure Byte where
  value : UInt8
  origin : Option Origin := none
  deriving DecidableEq, Repr

/-- A `byte_buffer`: its address, its capacity and its bytes. -/
structure Buffer where
  data : ℕ
  capacity : ℕ
  bytes : List UInt8
  deriving DecidableEq, Repr

/-- The buffer that never allocated. -/
def Buffer.null : Buffer := ⟨0, 0, []⟩

/-- `datagram`; the pointers of its `msg_` are slots of the deque that it is in. -/
structure Datagram where
  buf : Buffer
  iov : IoVec
  ep : Endpoint
  addr : Endpoint
  msgName : ℤ
  msgIov : ℤ
  id : UInt64 := 0
  currentlySubmitted : Bool := false
  deriving DecidableEq, Repr

/-- The payload and the destination. -/
def Datagram.message (d : Datagram) : List UInt8 × Endpoint := (d.buf.bytes, d.ep)

/-- The constructor of `datagram`, in a slot. -/
def makeDatagram (buf : Buffer) (ep : Endpoint) (slot : ℤ) : Datagram where
  buf := buf
  iov := ⟨buf.data, buf.bytes.length⟩
  ep := ep
  addr := ep
  msgName := slot
  msgIov := slot

/-- A datagram that is submitted, and what its `msg_` described then. -/
structure Submission where
  message : List UInt8 × Endpoint
  described : Option (List UInt8 × Endpoint)
  deriving DecidableEq

/-- What a `consume` answered: the policies it configured, in order, and its verdict. -/
structure Answer where
  policies : List ReceivePolicy
  verdict : ManagerResult
  deriving DecidableEq

/-- The policy that a call configures. -/
def Call.policy? : Call → Option ReceivePolicy
  | .configureNextRead p => some p
  | _ => none

/-- The payload and the destination of a call that enqueues. -/
def Call.payload? : Call → Option (List UInt8 × Endpoint)
  | .enqueue bytes ep => some (bytes, ep)
  | .enqueueBuffer bytes _ ep => some (bytes, ep)
  | _ => none

/-- What passed through a transport: the datagrams the kernel delivered, the spans handed to `consume`
and what it answered, the datagrams enqueued, those sent, and those submitted. -/
structure Trace where
  arrived : List (Endpoint × List UInt8) := []
  consumed : List (List Byte × Endpoint) := []
  answers : List Answer := []
  enqueued : List (List UInt8 × Endpoint) := []
  sent : List (List UInt8 × Endpoint) := []
  submissions : List Submission := []

/-- `datagram_transport`, with the members it inherits from `transport_base`; `heap` is the next
address of a buffer, and `beyond` is what the memory behind the read buffer holds. -/
structure DatagramTransport (M σ : Type) where
  manager : M
  nextLayer : σ
  config : TransportConfig := {}
  bufferCache : List Buffer := []
  heap : ℕ := 1
  received : ℕ := 0
  minReadSize : ℕ := 0
  numEnqueuedBytes : ℕ := 0
  readBuffer : List Byte := []
  beyond : ℕ → UInt8
  readAddr : Endpoint := ⟨0, 0⟩
  writeQueue : Deque Datagram := .empty
  trace : Trace := {}

variable {M σ : Type}

/-- `manager_base::register_reading` and `register_writing`, by the operation registered for. -/
abbrev Register (M σ : Type) := Operation → DatagramTransport M σ → DatagramTransport M σ

namespace DatagramTransport

/-- A transport right after its construction. -/
def fresh (manager : M) (nextLayer : σ) (beyond : ℕ → UInt8) : DatagramTransport M σ :=
  { manager := manager, nextLayer := nextLayer, beyond := beyond }

/-! ### `transport_base` -/

/-- `buffer_cache_has_space`. -/
def bufferCacheHasSpace (t : DatagramTransport M σ) : Bool :=
  t.bufferCache.length < t.config.maxEnqueuedBytes

/-- `get_buffer`: the oldest cached buffer, or a new one. -/
def getBuffer (t : DatagramTransport M σ) : Buffer × DatagramTransport M σ :=
  match t.bufferCache with
  | [] => (Buffer.null, t)
  | buf :: rest => (buf, { t with bufferCache := rest })

/-- `return_buffer`. -/
def returnBuffer (buf : Buffer) (t : DatagramTransport M σ) : DatagramTransport M σ :=
  if t.bufferCacheHasSpace then { t with bufferCache := t.bufferCache ++ [buf] } else t

/-- A new buffer with the bytes and at least this capacity. -/
def alloc (bytes : List UInt8) (capacity : ℕ) (t : DatagramTransport M σ) :
    Buffer × DatagramTransport M σ :=
  if max capacity bytes.length = 0 then (Buffer.null, t)
  else (⟨t.heap, max capacity bytes.length, bytes⟩, { t with heap := t.heap + 1 })

/-- `buf.assign`: in place if the capacity suffices. -/
def assign (buf : Buffer) (bytes : List UInt8) (t : DatagramTransport M σ) :
    Buffer × DatagramTransport M σ :=
  if bytes.length ≤ buf.capacity then ({ buf with bytes := bytes }, t)
  else t.alloc bytes bytes.length

/-! ### Reading -/

/-- `configure_next_read`. -/
def configureNextRead (p : ReceivePolicy) (t : DatagramTransport M σ) : DatagramTransport M σ :=
  { t with
    received := 0
    minReadSize := p.minSize.toNat
    readBuffer := t.readBuffer.take p.maxSize.toNat ++
      List.replicate (p.maxSize.toNat - t.readBuffer.length) ⟨0, none⟩ }

/-- The size of the span `read_buffer()` answers. -/
def readBufferSize (t : DatagramTransport M σ) : ℕ := subSize t.readBuffer.length t.received

/-- The first `received_` bytes at the address of the read buffer. -/
def span (t : DatagramTransport M σ) : List Byte :=
  t.readBuffer.take t.received ++
    (List.range' t.readBuffer.length (t.received - t.readBuffer.length)).map
      fun i => ⟨t.beyond i, none⟩

/-! ### Enqueueing -/

/-- `enqueue(byte_buffer&&, v4_endpoint)` up to the registration. -/
def push (buf : Buffer) (ep : Endpoint) (t : DatagramTransport M σ) : DatagramTransport M σ :=
  { t with
    numEnqueuedBytes := t.numEnqueuedBytes + buf.bytes.length
    writeQueue := t.writeQueue.emplaceBack (makeDatagram buf ep)
    trace := { t.trace with enqueued := t.trace.enqueued ++ [(buf.bytes, ep)] } }

/-- A buffer of the caller is pushed. -/
def pushNew (bytes : List UInt8) (capacity : ℕ) (ep : Endpoint) (t : DatagramTransport M σ) :
    DatagramTransport M σ :=
  let (buf, t) := t.alloc bytes capacity
  push buf ep t

/-- The bytes are copied to a cached or a new buffer, which is pushed. -/
def pushCopy (bytes : List UInt8) (ep : Endpoint) (t : DatagramTransport M σ) :
    DatagramTransport M σ :=
  let (buf, t) := t.getBuffer
  let (buf, t) := t.assign buf bytes
  push buf ep t

variable (reg : Register M σ)

/-- `enqueue(byte_buffer&&, v4_endpoint)`. -/
def enqueueBuffer (bytes : List UInt8) (capacity : ℕ) (ep : Endpoint) (t : DatagramTransport M σ) :
    DatagramTransport M σ :=
  reg .write (t.pushNew bytes capacity ep)

/-- `enqueue(const_byte_span, v4_endpoint)`. -/
def enqueue (bytes : List UInt8) (ep : Endpoint) (t : DatagramTransport M σ) :
    DatagramTransport M σ :=
  reg .write (t.pushCopy bytes ep)

/-! ### Callbacks -/

/-- One call of the next layer. -/
def call (t : DatagramTransport M σ) : Call → DatagramTransport M σ
  | .configureNextRead p => t.configureNextRead p
  | .enqueue bytes ep => t.enqueue reg bytes ep
  | .enqueueBuffer bytes capacity ep => t.enqueueBuffer reg bytes capacity ep
  | .registerReading => reg .read t
  | .registerWriting => reg .write t

/-- The next layer goes to its new state and its calls are run in order. -/
def callback (answer : σ × List Call × ManagerResult) (t : DatagramTransport M σ) :
    ManagerResult × DatagramTransport M σ :=
  (answer.2.2, answer.2.1.foldl (call reg) { t with nextLayer := answer.1 })

variable (app : NextLayer σ)

/-- `has_more_data()` of the next layer. -/
def hasMoreData (t : DatagramTransport M σ) : Bool := app.hasMoreData t.nextLayer

/-- `init`, after the settings are read: the answer is whether it succeeded. -/
def init (config : TransportConfig) (t : DatagramTransport M σ) : Bool × DatagramTransport M σ :=
  let (s, calls, ok) := app.init t.nextLayer
  (ok, calls.foldl (call reg) { t with config := config, nextLayer := s })

/-- `handle_timeout`. -/
def handleTimeout (id : UInt64) (t : DatagramTransport M σ) : ManagerResult × DatagramTransport M σ :=
  callback reg (app.handleTimeout t.nextLayer id) t

/-- `next_layer_.consume(*this, span, ep)`. -/
def consume (span : List Byte) (ep : Endpoint) (t : DatagramTransport M σ) :
    ManagerResult × DatagramTransport M σ :=
  let answer := app.consume t.nextLayer (span.map Byte.value) ep
  callback reg answer
    { t with trace := { t.trace with
      consumed := t.trace.consumed ++ [(span, ep)]
      answers := t.trace.answers ++ [⟨answer.2.1.filterMap Call.policy?, answer.2.2⟩] } }

/-- `handle_read_result`; `temporary` is `last_socket_error_is_temporary()`. -/
def handleReadResult (ep : Endpoint) (readRes : ℤ) (temporary : Bool) (t : DatagramTransport M σ) :
    ManagerResult × DatagramTransport M σ :=
  if readRes < 0 then
    (if temporary then .temporaryError else .error, t)
  else
    let t := { t with received := t.received + readRes.toNat }
    if t.minReadSize ≤ t.received then
      match consume reg app t.span ep t with
      | (.error, t) => (.error, t)
      | (_, t) => (.ok, { t with received := 0 })
    else
      (.ok, t)

/-! ### Writing -/

/-- `done_writing`. -/
def doneWriting (t : DatagramTransport M σ) : Bool :=
  t.writeQueue.elems.isEmpty && !t.hasMoreData app

/-- The loop of `fetch_more_data`, with the number of fetches still allowed. -/
def fetchLoop : ℕ → DatagramTransport M σ → DatagramTransport M σ
  | 0, t => t
  | i + 1, t =>
    if t.numEnqueuedBytes < t.config.maxEnqueuedBytes then
      if t.hasMoreData app then
        fetchLoop i (callback reg (app.produce t.nextLayer) t).2
      else t
    else t

/-- `fetch_more_data`. -/
def fetchMoreData (t : DatagramTransport M σ) : ManagerResult × DatagramTransport M σ :=
  let t := fetchLoop reg app t.config.maxConsecutiveFetches t
  (if t.doneWriting app then .done else .ok, t)

/-- The part of `handle_write_result` for a datagram that was written: it leaves the queue, and its
buffer goes to the cache. -/
def written (it : ℕ) (d : Datagram) (t : DatagramTransport M σ) : DatagramTransport M σ :=
  let t := { t with numEnqueuedBytes := subSize t.numEnqueuedBytes d.buf.bytes.length }
  let t := t.returnBuffer { d.buf with bytes := [] }
  { t with writeQueue := t.writeQueue.erase it }

/-- `handle_write_result` for the datagram `d` at the place `it` of the queue. -/
def handleWriteResult (writeRes : ℤ) (temporary : Bool) (it : ℕ) (d : Datagram)
    (t : DatagramTransport M σ) : ManagerResult × DatagramTransport M σ :=
  if writeRes < 0 then
    if temporary then
      (.temporaryError,
        { t with writeQueue := t.writeQueue.modify it fun d => { d with currentlySubmitted := false } })
    else (.error, t)
  else if writeRes.toNat < d.buf.bytes.length then (.error, t)
  else (.ok, t.written it d)

end DatagramTransport

/-! ### The kernel -/

/-- The outcome of a `recvfrom` or a `recvmsg`. -/
inductive ReadOutcome where
  | datagram (source : Endpoint) (payload : List UInt8)
  | failed (temporary : Bool)
  deriving DecidableEq

/-- The outcome of a `sendto`. -/
inductive SendOutcome where
  | sent
  | failed (temporary : Bool)
  deriving DecidableEq

/-- The largest payload of a UDP datagram; a larger one is refused. -/
def maxPayload : ℕ := 65507

/-- The bytes of a datagram, with their origin. -/
def marked (source : Endpoint) (n : ℕ) (payload : List UInt8) : List Byte :=
  payload.mapIdx fun pos value => ⟨value, some ⟨source, n, pos⟩⟩

/-- `last_socket_error_is_temporary()` after a read. -/
def ReadOutcome.temporary : ReadOutcome → Bool
  | .failed temporary => temporary
  | .datagram _ _ => false

namespace DatagramTransport

/-- `recvfrom` on `read_buffer()`: the endpoint and the result. What does not fit is lost. -/
def recvfrom (t : DatagramTransport M σ) : ReadOutcome → Endpoint × ℤ × DatagramTransport M σ
  | .datagram source payload =>
    let chunk := (marked source t.trace.arrived.length payload).take t.readBufferSize
    (source, chunk.length,
      { t with
        readBuffer := t.readBuffer.take t.received ++ chunk ++
          t.readBuffer.drop (t.received + chunk.length)
        trace := { t.trace with arrived := t.trace.arrived ++ [(source, payload)] } })
  | .failed _ => (⟨0, 0⟩, -1, t)

/-- `recvmsg` on the `msg_` of the read buffer, which describes the whole of it. -/
def recvmsg (t : DatagramTransport M σ) : ReadOutcome → ℤ × DatagramTransport M σ
  | .datagram source payload =>
    let chunk := (marked source t.trace.arrived.length payload).take t.readBuffer.length
    (chunk.length,
      { t with
        readBuffer := chunk ++ t.readBuffer.drop chunk.length
        readAddr := source
        trace := { t.trace with arrived := t.trace.arrived ++ [(source, payload)] } })
  | .failed _ => (-1, t)

/-- `sendto` of a datagram: the result, and whether an error is temporary. -/
def sendto (d : Datagram) (t : DatagramTransport M σ) :
    SendOutcome → ℤ × Bool × DatagramTransport M σ
  | .sent =>
    if d.buf.bytes.length ≤ maxPayload then
      (d.buf.bytes.length, false,
        { t with trace := { t.trace with sent := t.trace.sent ++ [d.message] } })
    else (-1, false, t)
  | .failed temporary => (-1, temporary, t)

/-! ### `datagram_transport_impl<event_handler, NextLayer>` -/

section Event

variable (reg : Register M σ) (app : NextLayer σ)

/-- The loop of `handle_read_event`. -/
def readLoop : ℕ → List ReadOutcome → DatagramTransport M σ → ManagerResult × DatagramTransport M σ
  | 0, _, t => (.ok, t)
  | n + 1, kernel, t =>
    if t.readBufferSize = 0 then (.ok, t)
    else
      let outcome := kernel.headD (.failed true)
      let (ep, readRes, t) := t.recvfrom outcome
      match handleReadResult reg app ep readRes outcome.temporary t with
      | (.ok, t) => readLoop n kernel.tail t
      | verdict => verdict

/-- `handle_read_event`. -/
def handleReadEvent (kernel : List ReadOutcome) (t : DatagramTransport M σ) :
    ManagerResult × DatagramTransport M σ :=
  readLoop reg app t.config.maxConsecutiveReads kernel t

/-- The inner loop of `handle_write_event`: the result, if it returns one, the outcomes left and where
the iterator stands. After a complete send it stands where the next datagram has moved to, so that a
pass makes at most as many sends as there were datagrams. -/
def sendLoop : ℕ → ℕ → List SendOutcome → DatagramTransport M σ →
    Option ManagerResult × ℕ × List SendOutcome × DatagramTransport M σ
  | 0, it, kernel, t => (none, it, kernel, t)
  | n + 1, it, kernel, t =>
    match t.writeQueue.elems[it]? with
    | none => (none, it, kernel, t)
    | some d =>
      let (writeRes, temporary, t) := t.sendto d (kernel.headD (.failed true))
      match t.handleWriteResult (toInt writeRes) temporary it d with
      | (.error, t) => (some .error, it, kernel.tail, t)
      | (.temporaryError, t) => (some .temporaryError, it, kernel.tail, t)
      | (_, t) => sendLoop n it kernel.tail t

/-- One pass of the loop of `handle_write_event`. -/
def writePass (kernel : List SendOutcome) (t : DatagramTransport M σ) :
    Option ManagerResult × List SendOutcome × DatagramTransport M σ :=
  match fetchMoreData reg app t with
  | (.done, t) => (some .done, kernel, t)
  | (_, t) =>
    match sendLoop t.writeQueue.elems.length 0 kernel t with
    | (some verdict, _, kernel, t) => (some verdict, kernel, t)
    | (none, it, kernel, t) => (none, kernel, { t with writeQueue := t.writeQueue.eraseFront it })

/-- The loop of `handle_write_event`: one pass, and up to `n` more. -/
def writeLoop : ℕ → List SendOutcome → DatagramTransport M σ → ManagerResult × DatagramTransport M σ
  | n, kernel, t =>
    match writePass reg app kernel t, n with
    | (some verdict, _, t), _ => (verdict, t)
    | (none, _, t), 0 => (if t.doneWriting app then .done else .ok, t)
    | (none, kernel, t), n + 1 => writeLoop n kernel t

/-- `handle_write_event`. -/
def handleWriteEvent (kernel : List SendOutcome) (t : DatagramTransport M σ) :
    ManagerResult × DatagramTransport M σ :=
  writeLoop reg app t.config.maxConsecutiveWrites kernel t

end Event

end DatagramTransport

/-- `register_reading` and `register_writing` under epoll or kqueue, as far as the transport can
see. -/
def eventRegister : Register Operation σ := fun op t =>
  if t.manager &&& op = Operation.none then { t with manager := t.manager ||| op } else t

/-! ### `datagram_transport_impl<uring_manager, NextLayer>` -/

/-- What a transport sees of its `uring_multiplexer`: its own mask, and the functions that submit, by
the operation: success and the id of the submission. -/
structure Port (M : Type) where
  mask : M → Operation
  maskSet : Operation → M → M
  submit : Operation → M → (Bool × UInt64) × M

namespace DatagramTransport

section Uring

variable (port : Port M)

/-- What the `msg_` of a datagram in the queue describes: the bytes that the iovec behind `msg_iov`
covers, if it points to the buffer that it lies next to, and the address behind `msg_name`. -/
def described (q : Deque Datagram) (d : Datagram) : Option (List UInt8 × Endpoint) := do
  let vec ← q.at? d.msgIov
  let name ← q.at? d.msgName
  if vec.iov.base = vec.buf.data then return (vec.buf.bytes.take vec.iov.len, name.addr) else none

/-- The datagram at an index is submitted. -/
def markSubmitted (i : ℕ) (d : Datagram) (id : UInt64) (t : DatagramTransport M σ) :
    DatagramTransport M σ :=
  { t with
    writeQueue := t.writeQueue.modify i fun d => { d with id := id, currentlySubmitted := true }
    trace := { t.trace with
      submissions := t.trace.submissions ++ [⟨d.message, described t.writeQueue d⟩] } }

/-- The loop of `submit_datagrams`, over the indices of the queue. -/
def submitLoop : List ℕ → DatagramTransport M σ → ManagerResult × DatagramTransport M σ
  | [], t => (.ok, t)
  | i :: is, t =>
    match t.writeQueue.elems[i]? with
    | none => submitLoop is t
    | some d =>
      if d.currentlySubmitted then submitLoop is t
      else
        let ((success, id), m) := port.submit .write t.manager
        let t := { t with manager := m }
        if success then submitLoop is (t.markSubmitted i d id) else (.error, t)

/-- One of the other submit functions; its result is not looked at. -/
def submitOther (op : Operation) (t : DatagramTransport M σ) : Bool × DatagramTransport M σ :=
  let ((success, _), m) := port.submit op t.manager
  (success, { t with manager := m })

variable (reg : Register M σ) (app : NextLayer σ)

/-- `submit_datagrams`. -/
def submitDatagrams (t : DatagramTransport M σ) : ManagerResult × DatagramTransport M σ :=
  let (_, t) := fetchMoreData reg app t
  if t.doneWriting app then (.done, t)
  else submitLoop port (List.range t.writeQueue.elems.length) t

/-- `enable`. -/
def uringEnable (op : Operation) (t : DatagramTransport M σ) : ManagerResult × DatagramTransport M σ :=
  if op = Operation.read then
    let (success, t) := submitOther port .read t
    (if success then .ok else .error, t)
  else if op = Operation.write then submitDatagrams port reg app t
  else (.error, t)

/-- `register_reading` and `register_writing`, where the `enable` of the transport is `virt`. -/
def registerBy (virt : Operation → DatagramTransport M σ → ManagerResult × DatagramTransport M σ) :
    Register M σ := fun op t =>
  if port.mask t.manager &&& op = Operation.none then
    Multiplexer.Uring.Model.enableWith (m := Id) (fun t => port.mask t.manager)
      (fun mask t => { t with manager := port.maskSet mask t.manager }) (virt op) op t
  else t

/-- The registrations from the callbacks of an `enable` for writing: the mask contains `write` then, so
only those for reading have an effect, and these make no callback. -/
def innerRegister : Register M σ := fun op t =>
  if op = Operation.read then
    registerBy port (fun _ t =>
      let (success, t) := submitOther port .read t
      (if success then .ok else .error, t)) Operation.read t
  else t

/-- The registrations of the transport. -/
def uringRegister : Register M σ := registerBy port (uringEnable port (innerRegister port) app)

/-- `handle_completion`; `temporary` is `last_socket_error_is_temporary()`. -/
def handleCompletion (op : Operation) (res : ℤ) (temporary : Bool) (id : UInt64)
    (t : DatagramTransport M σ) : ManagerResult × DatagramTransport M σ :=
  if op = Operation.read then
    match handleReadResult (uringRegister port app) app t.readAddr res temporary t with
    | (.temporaryError, t) => (.temporaryError, (submitOther port .pollRead t).2)
    | (.ok, t) => (.ok, (submitOther port .read t).2)
    | verdict => verdict
  else if op = Operation.pollRead then (.ok, (submitOther port .read t).2)
  else if op = Operation.write then
    match t.writeQueue.elems.findIdx? (·.id = id) with
    | none => (.error, t)
    | some it =>
      match t.writeQueue.elems[it]? with
      | none => (.error, t)
      | some d =>
        match t.handleWriteResult res temporary it d with
        | (.temporaryError, t) => (.temporaryError, (submitOther port .pollWrite t).2)
        | (.ok, t) => submitDatagrams port (uringRegister port app) app t
        | verdict => verdict
  else if op = Operation.pollWrite then submitDatagrams port (uringRegister port app) app t
  else (.error, t)

end Uring

end DatagramTransport

/-! ### Sessions -/

open DatagramTransport

/-- An event-driven transport, and whether one of its handlers answered `error`: its manager is removed
then. -/
structure Session (M σ : Type) where
  transport : DatagramTransport M σ
  failed : Bool := false

/-- What happens to an event-driven transport once it is initialized. -/
inductive Event where
  | readEvent (kernel : List ReadOutcome)
  | writeEvent (kernel : List SendOutcome)
  | timeout (id : UInt64)
  | call (c : Call)

namespace Session

variable (reg : Register M σ) (app : NextLayer σ)

/-- The session after `init`. -/
def start (m : M) (s : σ) (beyond : ℕ → UInt8) (config : TransportConfig) : Session M σ :=
  ⟨(init reg app config (fresh m s beyond)).2, false⟩

/-- The session after a handler answered. -/
def answered (o : ManagerResult × DatagramTransport M σ) : Session M σ := ⟨o.2, o.1 = .error⟩

/-- One event. -/
def step (s : Session M σ) (e : Event) : Session M σ :=
  if s.failed then s
  else match e with
    | .readEvent kernel => answered (s.transport.handleReadEvent reg app kernel)
    | .writeEvent kernel => answered (s.transport.handleWriteEvent reg app kernel)
    | .timeout id => { s with transport := (s.transport.handleTimeout reg app id).2 }
    | .call c => { s with transport := s.transport.call reg c }

end Session

/-- What happens to an io_uring transport: completions, timeouts, calls from outside, and what the
multiplexer does to its part. -/
inductive Completion (M : Type) where
  | read (outcome : ReadOutcome)
  | pollRead
  | write (res : ℤ) (temporary : Bool) (id : UInt64)
  | pollWrite
  | timeout (id : UInt64)
  | call (c : Call)
  | multiplexer (m : M)

namespace DatagramTransport

variable (port : Port M) (app : NextLayer σ)

/-- The io_uring transport after `init`. -/
def uringStart (m : M) (s : σ) (beyond : ℕ → UInt8) (config : TransportConfig) :
    DatagramTransport M σ :=
  (init (uringRegister port app) app config (fresh m s beyond)).2

/-- One event of an io_uring transport: the answer, where its handler gives one. -/
def complete (t : DatagramTransport M σ) : Completion M → ManagerResult × DatagramTransport M σ
  | .read outcome =>
    let (res, t) := t.recvmsg outcome
    t.handleCompletion port app .read res outcome.temporary 0
  | .pollRead => t.handleCompletion port app .pollRead 0 false 0
  | .write res temporary id => t.handleCompletion port app .write res temporary id
  | .pollWrite => t.handleCompletion port app .pollWrite 0 false 0
  | .timeout id => (.ok, (t.handleTimeout (uringRegister port app) app id).2)
  | .call c => (.ok, t.call (uringRegister port app) c)
  | .multiplexer m => (.ok, { t with manager := m })

end DatagramTransport

namespace Session

variable (port : Port M) (app : NextLayer σ)

/-- One event of a session of the io_uring transport. -/
def completeStep (s : Session M σ) (e : Completion M) : Session M σ :=
  if s.failed then s else answered (s.transport.complete port app e)

end Session

end NetworkDriver.Net.Datagrams.Model
