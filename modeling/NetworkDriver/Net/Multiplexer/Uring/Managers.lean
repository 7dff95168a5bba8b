import NetworkDriver.Net.Multiplexer.Uring.Model
import NetworkDriver.Net.Multiplexer.Uring.Submissions
import NetworkDriver.Net.StreamTransport.Model

/-! # The managers under io_uring

`uring_stream_transport`, the pollset updater and the acceptor over `uring_multiplexer`: what each does
in `init`, `enable` and `handle_completion`, and the steps of the event loop over them.

A manager object has a `Port` to the multiplexer: its own mask and the ring. A handler of a stream runs
on the object, so that a registration in the middle of it goes through the port. What the updater and
the acceptor hold besides plays no part, so every object has the members of a stream here. -/

namespace NetworkDriver.Net.Multiplexer.Uring.Managers

open NetworkDriver.Library.Keyed NetworkDriver.Net.Types NetworkDriver.Net.Multiplexer.Base
open NetworkDriver.Net.Multiplexer.Uring.Model NetworkDriver.Net.Multiplexer.Uring.Submissions
open NetworkDriver.Net.StreamTransport.Model

/-! ### Objects -/

/-- What a manager object sees of the multiplexer. -/
structure Port where
  mgr : Manager
  mask : Operation
  ring : Ring

/-- A manager object. -/
abbrev Object (σ : Type) := StreamTransportBase Port σ

variable {σ : Type}

/-- The same members with another manager part. -/
def withManager {M M' : Type} (m : M') (t : StreamTransportBase M σ) : StreamTransportBase M' σ :=
  { t with manager := m }

/-- `mask_set`. -/
def maskSet (mask : Operation) (t : Object σ) : Object σ :=
  { t with manager := { t.manager with mask := mask } }

/-- One of the submit functions, called by the manager for itself: whether it succeeded. -/
def submitBy (f : Manager → Ring → (Bool × UInt64) × Ring) (t : Object σ) : Bool × Object σ :=
  let ((success, _), ring) := f t.manager.mgr t.manager.ring
  (success, { t with manager := { t.manager with ring := ring } })

/-- `return success ? manager_result::ok : manager_result::error`, after a submission. -/
def submitted (f : Manager → Ring → (Bool × UInt64) × Ring) (t : Object σ) :
    ManagerResult × Object σ :=
  let (success, t) := submitBy f t
  (if success then .ok else .error, t)

/-- `uring_multiplexer::enable` of the manager, whose own `enable` is `virt`. -/
def enableBy (virt : Operation → Object σ → ManagerResult × Object σ) (op : Operation) (t : Object σ) :
    Object σ :=
  enableWith (m := Id) (fun t => t.manager.mask) maskSet (virt op) op t

/-- `register_reading` and `register_writing`, by the operation registered for. -/
def registerBy (virt : Operation → Object σ → ManagerResult × Object σ) (op : Operation)
    (t : Object σ) : Object σ :=
  if t.manager.mask &&& op = Operation.none then enableBy virt op t else t

/-! ### Streams -/

section Stream

variable (reg : Register Port σ) (app : NextLayer σ)

open StreamTransportBase

/-- `enable`. -/
def streamEnable (op : Operation) (t : Object σ) : ManagerResult × Object σ :=
  if op = Operation.read then submitted Ring.submitRead t
  else if op = Operation.write then
    let (_, t) := fetchMoreData reg app t
    if t.doneWriting app then (.done, t) else submitted Ring.submitWritev t
  else (.error, t)

/-- The registrations from the callbacks of an `enable` for writing: the mask contains `write` then, so
only those for reading have an effect, and these make no callback. -/
def innerRegister : Register Port σ := fun op t =>
  if op = Operation.read then registerBy (fun _ => submitted Ring.submitRead) Operation.read t else t

/-- The registrations of a stream. -/
def streamRegister : Register Port σ := registerBy (streamEnable innerRegister app)

/-- The end of `handle_completion` for `read` and `poll_read`: the result of the submission is not
looked at. -/
def submitReadAgain (t : Object σ) : ManagerResult × Object σ := (.ok, (submitBy Ring.submitRead t).2)

/-- The end of `handle_completion` for `write` and `poll_write`. -/
def submitWriteAgain (t : Object σ) : ManagerResult × Object σ :=
  let (_, t) := fetchMoreData (streamRegister app) app t
  if t.doneWriting app then (.done, t) else (.ok, (submitBy Ring.submitWritev t).2)

/-- `handle_completion`; `temporary` is `last_socket_error_is_temporary()`. -/
def streamHandleCompletion (op : Operation) (res : ℤ) (temporary : Bool) (t : Object σ) :
    ManagerResult × Object σ :=
  if op = Operation.read then
    match handleReadResult (streamRegister app) app res temporary t with
    | (.temporaryError, t) => (.temporaryError, (submitBy Ring.submitPollRead t).2)
    | (.ok, t) => submitReadAgain t
    | verdict => verdict
  else if op = Operation.pollRead then submitReadAgain t
  else if op = Operation.write then
    match handleWriteResult res temporary t with
    | (.temporaryError, t) => (.temporaryError, (submitBy Ring.submitPollWrite t).2)
    | (.ok, t) => submitWriteAgain app t
    | verdict => verdict
  else if op = Operation.pollWrite then submitWriteAgain app t
  else (.error, t)

end Stream

/-! ### The pollset updater and the acceptor -/

/-- `enable` of the updater. -/
def updaterEnable (op : Operation) (t : Object σ) : ManagerResult × Object σ :=
  if op ≠ Operation.read then (.error, t)
  else
    let t := match maskAdd t.manager.mask Operation.read with
      | some mask => maskSet mask t
      | none => t
    submitted Ring.submitReadv t

/-- `enable` of the acceptor. -/
def acceptorEnable (op : Operation) (t : Object σ) : ManagerResult × Object σ :=
  if op ≠ Operation.accept then (.error, t)
  else
    let t := match maskAdd t.manager.mask Operation.accept with
      | some mask => maskSet mask t
      | none => t
    submitted (Ring.submitAccept true) t

/-- The classes of managers. -/
inductive Kind (σ : Type) where
  | stream (app : NextLayer σ)
  | updater
  | acceptor

/-- `enable`, by the class of the manager. -/
def Kind.enable : Kind σ → Operation → Object σ → ManagerResult × Object σ
  | .stream app => streamEnable (streamRegister app) app
  | .updater => updaterEnable
  | .acceptor => acceptorEnable

/-- `init`, by the class of the manager. -/
def Kind.init (config : TransportConfig) : Kind σ → Object σ → Bool × Object σ
  | .stream app => StreamTransportBase.init (streamRegister app) app config
  | .updater => fun t => (true, t)
  | .acceptor => fun t => (true, t)

/-! ### The multiplexer -/

/-- What `uring_multiplexer` adds to its base: the ring; and what the manager objects hold besides
their masks. -/
structure UringData (σ : Type) where
  ring : Ring
  objects : Manager → StreamTransportBase Unit σ

/-- `uring_multiplexer` with its managers. -/
abbrev UringMultiplexer (σ : Type) := MultiplexerBase (UringData σ)

/-- A manager object with its port. -/
def object (s : UringMultiplexer σ) (mgr : Manager) : Object σ :=
  withManager ⟨mgr, s.mask mgr, s.derived.ring⟩ (s.derived.objects mgr)

/-- What a manager object did is written back. -/
def setObject (s : UringMultiplexer σ) (mgr : Manager) (t : Object σ) : UringMultiplexer σ :=
  { s.maskSet mgr t.manager.mask with
    derived := ⟨t.manager.ring, Function.update s.derived.objects mgr (withManager () t)⟩ }

/-- A function of a manager object. -/
def onObject {α : Type} (mgr : Manager) (f : Object σ → α × Object σ) (s : UringMultiplexer σ) :
    α × UringMultiplexer σ :=
  ((f (object s mgr)).1, setObject s mgr (f (object s mgr)).2)

-- the classes of the manager objects, which never change, and the settings of `cfg()`
variable (kind : Manager → Kind σ) (config : TransportConfig)

/-- `enable`. -/
def enable (mgr : Manager) (op : Operation) (s : UringMultiplexer σ) : UringMultiplexer σ :=
  setObject s mgr (enableBy (kind mgr).enable op (object s mgr))

/-- `add` on the thread of the multiplexer. -/
def add (mgr : Manager) (initial : Operation) (s : UringMultiplexer σ) :
    Except Fault (UringMultiplexer σ) :=
  Model.add mgr (fun mgr s => .ok (onObject mgr ((kind mgr).init config) s))
    (fun mgr s => .ok (enable kind mgr initial s)) s

/-- A message of the pipe: `code_`, `mgr_` and `op_` of the updater. -/
structure Message where
  code : UInt8
  mgr : Manager
  op : Operation

/-- `pollset_opcode::add`. -/
def addCode : UInt8 := 0x01

/-- `pollset_opcode::shutdown`. -/
def shutdownCode : UInt8 := 0x02

/-- `message_size`. -/
def messageSize : ℤ := 10

/-- `handle_operation` of the updater. -/
def handleOperation (msg : Message) (s : UringMultiplexer σ) :
    Except Fault (ManagerResult × UringMultiplexer σ) :=
  if msg.code = addCode then (add kind config msg.mgr msg.op s).map (.ok, ·)
  else if msg.code = shutdownCode then (shutdown s).map (.done, ·)
  else .ok (.error, s)

/-- `handle_completion` of the updater. -/
def updaterHandleCompletion (mgr : Manager) (op : Operation) (res : ℤ) (msg : Message)
    (s : UringMultiplexer σ) : Except Fault (ManagerResult × UringMultiplexer σ) :=
  if op ≠ Operation.read then .ok (.error, s)
  else if res ≠ messageSize then .ok (.error, s)
  else do
    let (handleRes, s) ← handleOperation kind config msg s
    if handleRes = .ok then return onObject mgr (submitted Ring.submitReadv) s
    else return (handleRes, s)

/-- `handle_completion` of the acceptor; `accepted` is the manager its factory makes of the new socket,
and `initial` the `initial_operation()` of that. -/
def acceptorHandleCompletion (op : Operation) (res : ℤ) (accepted : Manager) (initial : Operation)
    (s : UringMultiplexer σ) : Except Fault (ManagerResult × UringMultiplexer σ) :=
  if op ≠ Operation.accept then .ok (.error, s)
  else if res < 0 then (shutdown s).map (.error, ·)
  else (add kind config accepted initial s).map (.ok, ·)

/-- A completion: its result, whether the kernel goes on with a multishot, and what else the handlers
find: `last_socket_error_is_temporary()`, the bytes in the read buffer, the message in the members of
the updater, and the manager for an accepted socket with its `initial_operation()`. -/
structure Completion where
  res : ℤ
  more : Bool
  temporary : Bool
  bytes : List UInt8
  message : Message
  accepted : Manager
  initial : Operation

/-- `handle_completion`, by the class of the manager. -/
def handleCompletion (mgr : Manager) (op : Operation) (c : Completion) (s : UringMultiplexer σ) :
    Except Fault (ManagerResult × UringMultiplexer σ) :=
  match kind mgr with
  | .stream app =>
    .ok (onObject mgr
      (fun t => streamHandleCompletion app op c.res c.temporary
        (if op = Operation.read then (t.recv (.data c.bytes)).2 else t)) s)
  | .updater => updaterHandleCompletion kind config mgr op c.res c.message s
  | .acceptor => acceptorHandleCompletion kind config op c.res c.accepted c.initial s

/-- One pass of the loop of `handle_events`, for the completion of the `k`-th submission in flight. -/
def dispatch (k : ℕ) (c : Completion) (s : UringMultiplexer σ) : Except Fault (UringMultiplexer σ) :=
  match s.derived.ring.inFlight[k]? with
  | none => .ok s
  | some x => do
    let ring := s.derived.ring.complete k (x.multishot && c.more)
    let (verdict, s) ← handleCompletion kind config x.mgr x.op c
      { s with derived := { s.derived with ring := ring } }
    return handleVerdict x.mgr x.op verdict s

/-- `handle_timeout`, by the class of the manager. The default of the base, which only asserts that it
is never called, changes nothing. -/
def handleTimeout (mgr : Manager) (e : TimeoutEntry) (s : UringMultiplexer σ) : UringMultiplexer σ :=
  match kind mgr with
  | .stream app => (onObject mgr (StreamTransportBase.handleTimeout (streamRegister app) app e.id) s).2
  | .updater => s
  | .acceptor => s

/-! ### Runs -/

/-- What happens on the thread of the multiplexer: the parts of `poll_once`, of which one dispatch is
one event; a call of a next layer on its transport from outside; the calls of a user; and an unordered
map that orders its elements anew. -/
inductive Event where
  | submit (n : ℕ)
  | timeouts (now : ℕ → ℤ)
  | dispatch (k : ℕ) (c : Completion)
  | call (mgr : Manager) (c : Call)
  | setTimeout (mgr : Manager) (when : ℤ)
  | add (mgr : Manager) (initial : Operation)
  | shutdown
  | rehash (order : List Manager)

/-- One event. -/
def step (e : Event) (s : UringMultiplexer σ) : Except Fault (UringMultiplexer σ) :=
  match e with
  | .submit n => .ok { s with derived := { s.derived with ring := s.derived.ring.toKernel n } }
  | .timeouts now => s.handleTimeouts (fun _ mgr e s => .ok (handleTimeout kind mgr e s)) now
  | .dispatch k c => dispatch kind config k c s
  | .call mgr c =>
    match kind mgr with
    | .stream app => .ok (setObject s mgr ((object s mgr).call (streamRegister app) c))
    | .updater => .ok s
    | .acceptor => .ok s
  | .setTimeout mgr when => .ok (s.setTimeout mgr when).2
  | .add mgr initial => add kind config mgr initial s
  | .shutdown => Model.shutdown s
  | .rehash order => .ok { s with managers := s.managers.rehash order }

/-- A multiplexer whose `init` has made the pipe and is about to add the updater and the acceptor;
`objects` are the managers as they will be constructed. -/
def start (pipeReader pipeWriter : SocketId) (objects : Manager → StreamTransportBase Unit σ) :
    UringMultiplexer σ :=
  { MultiplexerBase.init ⟨Ring.empty, objects⟩ with
    pipeReader := pipeReader, pipeWriter := pipeWriter }

end NetworkDriver.Net.Multiplexer.Uring.Managers
