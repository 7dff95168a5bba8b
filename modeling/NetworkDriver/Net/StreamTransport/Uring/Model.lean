import NetworkDriver.Net.Multiplexer.Uring.Managers
import NetworkDriver.Net.StreamTransport.Callbacks

/-! # The stream transport under io_uring

`stream_transport<uring_manager, NextLayer>` with what its submissions tell the kernel. A read is for a
span of the read buffer. A `writev` is for the array behind `iovecs_`, of which the kernel makes a copy
in `io_uring_submit`; the buffers it reads some time later, and the completion is dispatched later still.
In between, callbacks may enqueue, and an array that is full moves.

`Uring.Managers` has the same transport without spans. `bare` forgets them, and `bare_run` and
`object_dispatch` say that nothing else is different: without them, both make the same moves. -/

namespace NetworkDriver.Net.StreamTransport.Uring.Model

open NetworkDriver.Net.Types NetworkDriver.Net.Multiplexer.Base
open NetworkDriver.Net.Multiplexer.Uring.Model NetworkDriver.Net.Multiplexer.Uring.Submissions
open NetworkDriver.Net.Multiplexer.Uring.Managers (Port Object withManager)
open NetworkDriver.Net.StreamTransport.Model

/-! ### The line to the kernel -/

/-- A submission of the transport, by what the kernel has made of it. -/
inductive Entry where
  /-- A read to a span of the read buffer. -/
  | read (offset size : ℕ)
  /-- A `writev` that waits in the submission queue: where the array of iovecs is, and its length. -/
  | prepared (array count : ℕ)
  /-- A `writev` of which the kernel has copied the array. -/
  | sending (iovecs : List IoVec)
  | poll (op : Operation)
  /-- A completion that is not dispatched yet, with the bytes that were read or written. -/
  | finished (op : Operation) (res : ℤ) (bytes : List UInt8)
  deriving DecidableEq

/-- What a stream transport has of the multiplexer and the kernel. `array` stands for the address of the
array behind `iovecs_`, and `dangling` records that the kernel was given an address that was left. -/
structure Line where
  port : Port
  array : ℕ := 0
  capacity : ℕ := 0
  entries : List Entry := []
  dangling : Bool := false

/-- The transport. -/
abbrev Stream (σ : Type) := StreamTransportBase Line σ

variable {σ : Type}

/-- `mask_set`. -/
def maskSet (mask : Operation) (t : Stream σ) : Stream σ :=
  { t with manager := { t.manager with port := { t.manager.port with mask := mask } } }

/-- What `emplace_back` has done to the array of iovecs: one that was full has moved. -/
def grow (t : Stream σ) : Stream σ :=
  if t.iovecs.length ≤ t.manager.capacity then t
  else
    { t with
      manager := { t.manager with
        array := t.manager.array + 1
        capacity := max t.iovecs.length (2 * t.manager.capacity) } }

/-- One of the submit functions, called by the transport for itself: whether it succeeded. -/
def submitBy (f : Manager → Ring → (Bool × UInt64) × Ring) (entry : Entry) (t : Stream σ) :
    Bool × Stream σ :=
  let ((success, _), ring) := f t.manager.port.mgr t.manager.port.ring
  (success, { t with
    manager := { t.manager with
      port := { t.manager.port with ring := ring }
      entries := if success then t.manager.entries ++ [entry] else t.manager.entries } })

/-- `submit_read(*this, read_buffer())`. -/
def submitRead (t : Stream σ) : Bool × Stream σ :=
  submitBy Ring.submitRead (.read t.received t.readBufferSize) t

/-- `submit_writev(*this, iovecs())`. -/
def submitWritev (t : Stream σ) : Bool × Stream σ :=
  submitBy Ring.submitWritev (.prepared t.manager.array t.iovecs.length) t

/-- `return success ? manager_result::ok : manager_result::error`. -/
def answered (o : Bool × Stream σ) : ManagerResult × Stream σ := (if o.1 then .ok else .error, o.2)

/-- `uring_multiplexer::enable` of the transport, whose own `enable` is `virt`. -/
def enableBy (virt : Operation → Stream σ → ManagerResult × Stream σ) (op : Operation) (t : Stream σ) :
    Stream σ :=
  enableWith (m := Id) (fun t => t.manager.port.mask) maskSet (virt op) op t

/-- `register_reading` and `register_writing`, by the operation registered for. -/
def registerBy (virt : Operation → Stream σ → ManagerResult × Stream σ) (op : Operation)
    (t : Stream σ) : Stream σ :=
  if t.manager.port.mask &&& op = Operation.none then enableBy virt op t else t

/-- An `enqueue` registers for writing, behind its `emplace_back`. -/
def emplaced (op : Operation) (t : Stream σ) : Stream σ := if op = Operation.write then grow t else t

/-! ### `stream_transport<uring_manager, NextLayer>` -/

section Transport

variable (reg : Register Line σ) (app : NextLayer σ)

open StreamTransportBase

/-- `enable`. -/
def enable (op : Operation) (t : Stream σ) : ManagerResult × Stream σ :=
  if op = Operation.read then answered (submitRead t)
  else if op = Operation.write then
    let (_, t) := fetchMoreData reg app t
    if t.doneWriting app then (.done, t) else answered (submitWritev t)
  else (.error, t)

/-- The registrations from the callbacks of an `enable` for writing: the mask contains `write` then, so
only those for reading have an effect, and these make no callback. -/
def innerRegister : Register Line σ := fun op t =>
  if op = Operation.read then registerBy (fun _ t => answered (submitRead t)) Operation.read t
  else emplaced op t

/-- The registrations of the transport. -/
def register : Register Line σ := fun op t => registerBy (enable innerRegister app) op (emplaced op t)

/-- The end of `handle_completion` for `read` and `poll_read`: the result of the submission is not
looked at. -/
def submitReadAgain (t : Stream σ) : ManagerResult × Stream σ := (.ok, (submitRead t).2)

/-- The end of `handle_completion` for `write` and `poll_write`. -/
def submitWriteAgain (t : Stream σ) : ManagerResult × Stream σ :=
  let (_, t) := fetchMoreData (register app) app t
  if t.doneWriting app then (.done, t) else (.ok, (submitWritev t).2)

/-- `handle_completion`; `temporary` is `last_socket_error_is_temporary()`. -/
def handleCompletion (op : Operation) (res : ℤ) (temporary : Bool) (t : Stream σ) :
    ManagerResult × Stream σ :=
  if op = Operation.read then
    match handleReadResult (register app) app res temporary t with
    | (.temporaryError, t) =>
      (.temporaryError, (submitBy Ring.submitPollRead (.poll Operation.pollRead) t).2)
    | (.ok, t) => submitReadAgain t
    | verdict => verdict
  else if op = Operation.pollRead then submitReadAgain t
  else if op = Operation.write then
    match handleWriteResult res temporary t with
    | (.temporaryError, t) =>
      (.temporaryError, (submitBy Ring.submitPollWrite (.poll Operation.pollWrite) t).2)
    | (.ok, t) => submitWriteAgain app t
    | verdict => verdict
  else if op = Operation.pollWrite then submitWriteAgain app t
  else (.error, t)

/-- What the verdict of a completion means for the mask of the transport in `handle_events`. -/
def settle (op : Operation) (verdict : ManagerResult) (t : Stream σ) : Stream σ :=
  match verdict with
  | .ok => t
  | .error => t
  | .done => maskSet ((maskDel t.manager.port.mask op).getD t.manager.port.mask) t
  | .temporaryError => maskSet ((maskDel t.manager.port.mask op).getD t.manager.port.mask) t

end Transport

/-! ### The kernel -/

/-- Another entry in the place of the `k`-th one. -/
def setEntry (k : ℕ) (entry : Entry) (t : Stream σ) : Stream σ :=
  { t with manager := { t.manager with entries := t.manager.entries.set k entry } }

/-- `io_uring_submit` for a `writev`: the kernel copies as many iovecs as there were, from where the
array was. -/
def importIovecs (k array count : ℕ) (t : Stream σ) : Stream σ :=
  if array = t.manager.array ∧ count ≤ t.iovecs.length then setEntry k (.sending (t.iovecs.take count)) t
  else { t with manager := { t.manager with dangling := true } }

/-- The bytes that a list of iovecs describes. -/
def describedBy (iovecs : List IoVec) (t : Stream σ) : List UInt8 :=
  iovecs.flatMap fun v => t.memory.view v.base v.len

/-- The kernel writes the first bytes that the iovecs describe, or fails. -/
def transferWrite (k : ℕ) (iovecs : List IoVec) (outcome : WriteOutcome) (t : Stream σ) : Stream σ :=
  match outcome with
  | .took n =>
    let n := min n (min (iovecs.map IoVec.len).sum maxRwCount)
    setEntry k (.finished Operation.write n ((describedBy iovecs t).take n)) t
  | .failed _ => setEntry k (.finished Operation.write (-1) []) t

/-- The kernel fills the span with what has arrived, or fails. -/
def transferRead (k offset size : ℕ) (outcome : ReadOutcome) (t : Stream σ) : Stream σ :=
  match outcome with
  | .data bytes =>
    let chunk := bytes.take (min size maxRwCount)
    setEntry k (.finished Operation.read chunk.length chunk)
      { t with
        readBuffer := t.readBuffer.take offset ++ chunk ++ t.readBuffer.drop (offset + chunk.length) }
  | .closed => setEntry k (.finished Operation.read 0 []) t
  | .failed _ => setEntry k (.finished Operation.read (-1) []) t

/-! ### Runs -/

/-- What happens to a transport once it is initialized: `uring_multiplexer::enable` for the initial
operation; calls from outside and timeouts; what other managers do to the ring; `io_uring_submit`, the
work of the kernel and the dispatch of a completion, each for the `k`-th entry. -/
inductive Event where
  | enable (op : Operation)
  | call (c : Call)
  | timeout (id : UInt64)
  | ring (r : Ring)
  | submit (k : ℕ)
  | read (k : ℕ) (outcome : ReadOutcome)
  | write (k : ℕ) (outcome : WriteOutcome)
  | poll (k : ℕ)
  | complete (k : ℕ) (temporary : Bool)

/-- The `k`-th entry leaves, and what it moved passes through the transport. -/
def passed (k : ℕ) (op : Operation) (bytes : List UInt8) (t : Stream σ) : Stream σ :=
  { t with
    manager := { t.manager with entries := t.manager.entries.eraseIdx k }
    trace := { t.trace with
      delivered := if op = Operation.read then t.trace.delivered ++ bytes else t.trace.delivered
      taken := if op = Operation.write then t.trace.taken ++ bytes else t.trace.taken } }

variable (app : NextLayer σ)

/-- One pass of the loop of `handle_events`. -/
def dispatch (k : ℕ) (op : Operation) (res : ℤ) (bytes : List UInt8) (temporary : Bool) (t : Stream σ) :
    Stream σ :=
  let (verdict, t) := handleCompletion app op res temporary (passed k op bytes t)
  settle op verdict t

/-- One event. -/
def step (t : Stream σ) : Event → Stream σ
  | .enable op => enableBy (enable (register app) app) op t
  | .call c => t.call (register app) c
  | .timeout id => (StreamTransportBase.handleTimeout (register app) app id t).2
  | .ring r => { t with manager := { t.manager with port := { t.manager.port with ring := r } } }
  | .submit k =>
    match t.manager.entries[k]? with
    | some (.prepared array count) => importIovecs k array count t
    | _ => t
  | .read k outcome =>
    match t.manager.entries[k]? with
    | some (.read offset size) => transferRead k offset size outcome t
    | _ => t
  | .write k outcome =>
    match t.manager.entries[k]? with
    | some (.sending iovecs) => transferWrite k iovecs outcome t
    | _ => t
  | .poll k =>
    match t.manager.entries[k]? with
    | some (.poll op) => setEntry k (.finished op 1 []) t
    | _ => t
  | .complete k temporary =>
    match t.manager.entries[k]? with
    | some (.finished op res bytes) => dispatch app k op res bytes temporary t
    | _ => t

/-- A transport after `init`. -/
def start (port : Port) (s : σ) (config : TransportConfig) : Stream σ :=
  (StreamTransportBase.init (register app) app config (StreamTransportBase.fresh ⟨port, 0, 0, [], false⟩ s {})).2

end NetworkDriver.Net.StreamTransport.Uring.Model
