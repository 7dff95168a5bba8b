import NetworkDriver.Library.Run
import NetworkDriver.Net.Multiplexer.Base

/-! # The control pipe

How other threads reach a `kqueue_multiplexer` or a `uring_multiplexer`: `add` and `shutdown` write
a message to a pipe that the `pollset_updater` reads on the thread of the multiplexer. A message for
`add` carries the raw pointer of the manager, and with it one reference.

The pipe is a queue of whole messages. A call of another thread takes three steps: it starts, it
writes, which may fail, and it returns; so they interleave with each other and with the reads. The
updater itself is no manager of `managers`.

* `startAdd`, `startShutdown`, `writeToPipe`, `returnFrom`: the calls of other threads.
* `read`: a read event, or a completed read, of the updater.
* `step`: one step of the system. -/

namespace NetworkDriver.Net.Multiplexer.ControlPipe.Model

open NetworkDriver.Library.Keyed NetworkDriver.Net.Types NetworkDriver.Net.Multiplexer.Base

inductive Backend where
  | kqueue
  | uring
  deriving DecidableEq

/-- A message: an opcode, a pointer and an operation. For `shutdown` the pointer is null. -/
inductive Message where
  | add (mgr : Manager) (op : Operation)
  | shutdown
  deriving DecidableEq

/-- A call of another thread: before it writes, and for `add` also before it returns. -/
inductive Call where
  | adding (mgr : Manager) (op : Operation)
  | added (mgr : Manager)
  | shuttingDown
  deriving DecidableEq

/-- An `add` on the thread of the multiplexer: whether the manager was registered by it, and its mask
then. -/
structure Registration where
  mgr : Manager
  op : Operation
  registered : Bool
  mask : Operation
  deriving DecidableEq

/-- The multiplexer, the pipe and the calls in progress. `held` are the `intrusive_ptr`s outside of all
of them. No function of the source reads `handed` and `registrations`. -/
structure State where
  refCount : Manager → ℕ
  held : List Manager
  calls : List Call
  pipe : List Message
  managers : KeyedMap Manager.handle
  mask : Manager → Operation
  shuttingDown : Bool
  writerOpen : Bool
  updater : Bool
  terminated : Bool := false
  dangling : Bool := false
  handed : List (Manager × Operation) := []
  registrations : List Registration := []

namespace State

/-- `ref`. -/
def ref (s : State) (mgr : Manager) : State :=
  { s with refCount := Function.update s.refCount mgr (s.refCount mgr + 1) }

/-- `deref`. -/
def deref (s : State) (mgr : Manager) : State :=
  { s with refCount := Function.update s.refCount mgr (s.refCount mgr - 1) }

def maskSet (s : State) (mgr : Manager) (mask : Operation) : State :=
  { s with mask := Function.update s.mask mgr mask }

/-! ### The thread of the multiplexer -/

/-- `managers_.erase`, which destroys the pointer. -/
def erase (s : State) (mgr : Manager) : State :=
  if mgr ∈ s.managers.elems then { s with managers := s.managers.erase mgr.handle }.deref mgr else s

/-- `multiplexer_base::add`: the map takes the pointer over, or it is destroyed where the socket is
registered. -/
def emplace (s : State) (mgr : Manager) : State :=
  if mgr.handle ∈ s.managers.elems.map Manager.handle then s.deref mgr
  else { s with managers := s.managers.emplace mgr }

/-- The body of the loop of `shutdown`. -/
def visit (s : State) (mgr : Manager) : State :=
  let s := match maskDel (s.mask mgr) Operation.readAccept with
    | none => s
    | some mask => s.maskSet mgr mask
  if s.mask mgr = Operation.none then s.erase mgr else s

/-- `shutdown` on the thread of the multiplexer. -/
def shutdown (s : State) : State :=
  let s := { s with shuttingDown := true }
  let s := s.managers.elems.foldl visit s
  { s with writerOpen := false }

/-- The updater is removed, and the read end of the pipe closed with it. -/
def leave (s : State) : State := { s with updater := false, pipe := [] }

/-- What the code of managers and the ring answer in an `add`: what `init` registers for, whether it
fails, whether the `enable` of a manager of io_uring accepts the operation, and whether the next
read of the updater can be submitted. -/
structure Answers where
  waits : Operation
  fails : Bool
  accepts : Bool
  resubmits : Bool

/-- `init`, and `handle_error` where it fails. -/
def init (s : State) (mgr : Manager) (answers : Answers) : State :=
  let s := s.maskSet mgr (s.mask mgr ||| answers.waits)
  if answers.fails then s.shutdown else s

/-- Whether `multiplexer_base::add` registers the manager. -/
def registers (s : State) (mgr : Manager) : Bool :=
  mgr.handle ∉ s.managers.elems.map Manager.handle

/-- The manager on the socket of one that was added. -/
def addedMgr (s : State) (mgr : Manager) : Manager := (s.managers.find? mgr.handle).getD mgr

/-- `kqueue_multiplexer::add`. -/
def addKqueue (s : State) (mgr : Manager) (op : Operation) (answers : Answers) : State :=
  let registered := s.registers mgr
  let s : State := match maskAdd (s.mask mgr) op with
    | none => s
    | some mask => s.maskSet mgr mask
  let s : State := { s with registrations := s.registrations ++ [⟨mgr, op, registered, s.mask mgr⟩] }
  let s := s.emplace mgr
  s.init (s.addedMgr mgr) answers

/-- `uring_multiplexer::enable`. -/
def enableUring (s : State) (mgr : Manager) (op : Operation) (accepts : Bool) : State :=
  match maskAdd (s.mask mgr) op with
  | none => s
  | some mask =>
    let s := s.maskSet mgr mask
    if accepts then s
    else
      match maskDel (s.mask mgr) op with
      | none => s
      | some mask => s.maskSet mgr mask

/-- `uring_multiplexer::add`. The reference to the pointer in the map may dangle after `init`. -/
def addUring (s : State) (mgr : Manager) (op : Operation) (answers : Answers) : State :=
  let registered := s.registers mgr
  let s := s.emplace mgr
  let added := s.addedMgr mgr
  let s := s.init added answers
  if added ∈ s.managers.elems then
    let s := s.enableUring added op answers.accepts
    { s with registrations := s.registrations ++ [⟨mgr, op, registered, s.mask mgr⟩] }
  else
    { s with
      dangling := true
      registrations := s.registrations ++ [⟨mgr, op, registered, s.mask mgr⟩] }

/-- `handle_read_event` and `handle_completion` of the updater, with `handle_operation`, and what the
event loop does with the answer. -/
def read (backend : Backend) (answers : Answers) (s : State) : State :=
  if s.updater then
    match s.pipe with
    | [] => if s.writerOpen then s else s.leave
    | .shutdown :: pipe => { s with pipe := pipe }.shutdown.leave
    | .add mgr op :: pipe =>
      match backend with
      | .kqueue => { s with pipe := pipe }.addKqueue mgr op answers
      | .uring =>
        let s := { s with pipe := pipe }.addUring mgr op answers
        if s.dangling || answers.resubmits then s else s.leave
  else s

/-! ### Other threads -/

/-- `add`, up to the write: kqueue takes a reference for the message, io_uring releases its own. -/
def startAdd (backend : Backend) (mgr : Manager) (op : Operation) (s : State) : State :=
  if mgr ∈ s.held then
    let s := { s with
      held := s.held.erase mgr
      calls := .adding mgr op :: s.calls
      handed := s.handed ++ [(mgr, op)] }
    match backend with
    | .kqueue => s.ref mgr
    | .uring => s
  else s

/-- `shutdown`, up to the write. -/
def startShutdown (s : State) : State :=
  if s.shuttingDown then s else { s with calls := .shuttingDown :: s.calls }

/-- Whether a write of a message succeeds: both ends of the pipe have to be open. -/
def writes (s : State) (ok : Bool) : Bool := ok && s.writerOpen && s.updater

/-- `write_to_pipe` in a call in progress. The result is looked at for `shutdown` only. -/
def writeToPipe (call : Call) (ok : Bool) (s : State) : State :=
  if call ∈ s.calls then
    match call with
    | .adding mgr op =>
      { s with
        calls := .added mgr :: s.calls.erase (.adding mgr op)
        pipe := if s.writes ok then s.pipe ++ [.add mgr op] else s.pipe }
    | .added _ => s
    | .shuttingDown =>
      let s' := { s with calls := s.calls.erase .shuttingDown }
      if s.writes ok then { s' with pipe := s.pipe ++ [.shutdown] } else { s' with terminated := true }
  else s

/-- `add` returns: under kqueue its parameter is destroyed. -/
def returnFrom (backend : Backend) (mgr : Manager) (s : State) : State :=
  if .added mgr ∈ s.calls then
    let s := { s with calls := s.calls.erase (.added mgr) }
    match backend with
    | .kqueue => s.deref mgr
    | .uring => s
  else s

end State

open State

/-! ### Steps -/

/-- The events: `copy` and `drop` of an `intrusive_ptr` elsewhere; the steps of the calls of other
threads; a read of the updater, and one that fails; on the thread of the multiplexer also a
`shutdown` by another handler, the removal of a manager and a change of its mask. -/
inductive Event where
  | copy (mgr : Manager)
  | drop (mgr : Manager)
  | startAdd (mgr : Manager) (op : Operation)
  | startShutdown
  | write (call : Call) (ok : Bool)
  | return (mgr : Manager)
  | read (answers : Answers)
  | readFails
  | shutdown
  | erase (mgr : Manager)
  | maskSet (mgr : Manager) (mask : Operation)

/-- One step. Nothing follows the end of the program, or the use of a dangling reference. -/
def step (backend : Backend) (s : State) (e : Event) : State :=
  if s.terminated || s.dangling then s
  else
    match e with
    | .copy mgr =>
      if mgr ∈ s.held ∨ mgr ∈ s.managers.elems then { s with held := mgr :: s.held }.ref mgr else s
    | .drop mgr => if mgr ∈ s.held then { s with held := s.held.erase mgr }.deref mgr else s
    | .startAdd mgr op => s.startAdd backend mgr op
    | .startShutdown => s.startShutdown
    | .write call ok => s.writeToPipe call ok
    | .return mgr => s.returnFrom backend mgr
    | .read answers => s.read backend answers
    | .readFails => if s.updater then s.leave else s
    | .shutdown => s.shutdown
    | .erase mgr => s.erase mgr
    | .maskSet mgr mask => s.maskSet mgr mask

/-- A running multiplexer that nothing was handed to. -/
def start (held : List Manager) : State where
  refCount mgr := held.count mgr
  held := held
  calls := []
  pipe := []
  managers := .empty
  mask _ := Operation.none
  shuttingDown := false
  writerOpen := true
  updater := true

end NetworkDriver.Net.Multiplexer.ControlPipe.Model
