import NetworkDriver.Library.Allocation
import NetworkDriver.Library.Run
import NetworkDriver.Net.Multiplexer.Uring.Model
import NetworkDriver.Net.Multiplexer.Uring.Submissions

/-! # The records of the submissions

Every submission has a record on the heap that owns a reference to its manager. The entries of the ring
carry the address of the record, and so do their completions. What the managers do is given here as a
list of `Act`s, so that the results hold for managers of any kind.

A record is pending until the last completion of its submission is handled: the only one of a single
shot, and the one without `IORING_CQE_F_MORE` of a multishot.

* `Ring.submit`, `Ring.delete`: where a record is made and where it is deleted.
* `dispatch`: one pass of the loop of `handle_events`.
* `Accounted`: the records are released as they should be. -/

namespace NetworkDriver.Net.Multiplexer.Uring.Records

open NetworkDriver.Library.Allocation NetworkDriver.Library.Keyed NetworkDriver.Library.Run
open NetworkDriver.Net.Types NetworkDriver.Net.Multiplexer.Base
open NetworkDriver.Net.Multiplexer.Uring.Model

/-! ### The ring and the heap -/

/-- `submission_data`. -/
structure SubmissionData where
  mgr : Manager
  op : Operation
  id : UInt64
  multishot : Bool
  deriving DecidableEq

/-- An entry of the submission queue: its user data, and whether it was prepared as a multishot. -/
structure Sqe where
  data : ℕ
  multishot : Bool
  deriving DecidableEq

/-- An entry of the completion queue: its user data, its result and `IORING_CQE_F_MORE`. -/
structure Cqe where
  data : Option ℕ
  res : ℤ
  more : Bool
  deriving DecidableEq

/-- The user data of a completion after which no other one follows. -/
def Cqe.last (c : Cqe) : Option ℕ := if c.more then none else c.data

/-- What `uring_multiplexer` adds to its base: `uring_` with the submissions that wait in the queue,
those the kernel has and the completions, and `current_submission_id_`. Then the heap of the records,
the reference count of every manager, and the `intrusive_ptr`s that neither a record nor `managers_`
holds. -/
structure Ring where
  heap : Heap SubmissionData
  queued : List Sqe
  inFlight : List Sqe
  completions : List Cqe
  currentSubmissionId : UInt64
  refCount : Manager → ℕ
  held : List Manager

/-- `uring_multiplexer`. -/
abbrev UringMultiplexer := MultiplexerBase Ring

namespace Ring

/-- The ring of a new multiplexer. -/
def empty : Ring := ⟨.empty, [], [], [], 0, fun _ => 0, []⟩

/-- The addresses of the records whose last completion has not been handled. -/
def pending (u : Ring) : List ℕ :=
  (u.queued ++ u.inFlight).map Sqe.data ++ u.completions.filterMap Cqe.last

/-- `ref_counted::ref`. -/
def ref (mgr : Manager) (u : Ring) : Ring :=
  { u with refCount := Function.update u.refCount mgr (u.refCount mgr + 1) }

/-- `ref_counted::deref`. -/
def deref (mgr : Manager) (u : Ring) : Ring :=
  { u with refCount := Function.update u.refCount mgr (u.refCount mgr - 1) }

/-! ### Submissions -/

/-- `prepare_submission`; the reference that the parameter holds moves into the record. -/
def prepareSubmission (mgr : Manager) (op : Operation) (multishot : Bool) (u : Ring) : Option Ring :=
  if u.queued.length < Submissions.maxUringDepth then
    some { u with
      heap := u.heap.alloc ⟨mgr, op, u.currentSubmissionId, multishot⟩
      queued := u.queued ++ [⟨u.heap.next, multishot⟩] }
  else none

/-- The common form of the functions below. Without an entry, the parameter of `prepare_submission`
gives its reference up. -/
def submit (op : Operation) (multishot : Bool) (mgr : Manager) (u : Ring) : (Bool × UInt64) × Ring :=
  match (u.ref mgr).prepareSubmission mgr op multishot with
  | some u =>
    ((true, u.currentSubmissionId), { u with currentSubmissionId := u.currentSubmissionId + 1 })
  | none => ((false, 0), (u.ref mgr).deref mgr)

/-- `submit_accept`. -/
def submitAccept (multishot : Bool) : Manager → Ring → (Bool × UInt64) × Ring :=
  submit Operation.accept multishot

/-- `submit_poll_read`. -/
def submitPollRead (multishot : Bool) : Manager → Ring → (Bool × UInt64) × Ring :=
  submit Operation.pollRead multishot

/-- `submit_poll_write`. -/
def submitPollWrite (multishot : Bool) : Manager → Ring → (Bool × UInt64) × Ring :=
  submit Operation.pollWrite multishot

/-- `submit_read`. -/
def submitRead : Manager → Ring → (Bool × UInt64) × Ring := submit Operation.read false

/-- `submit_write`. -/
def submitWrite : Manager → Ring → (Bool × UInt64) × Ring := submit Operation.write false

/-- `submit_readv`. -/
def submitReadv : Manager → Ring → (Bool × UInt64) × Ring := submit Operation.read false

/-- `submit_writev`. -/
def submitWritev : Manager → Ring → (Bool × UInt64) × Ring := submit Operation.write false

/-- `submit_recvmsg`. -/
def submitRecvmsg (multishot : Bool) : Manager → Ring → (Bool × UInt64) × Ring :=
  submit Operation.read multishot

/-- `submit_sendmsg`. -/
def submitSendmsg : Manager → Ring → (Bool × UInt64) × Ring := submit Operation.write false

/-- The submit functions. -/
inductive Request where
  | accept (multishot : Bool)
  | pollRead (multishot : Bool)
  | pollWrite (multishot : Bool)
  | read
  | write
  | readv
  | writev
  | recvmsg (multishot : Bool)
  | sendmsg

/-- A call of a submit function. -/
def request : Request → Manager → Ring → (Bool × UInt64) × Ring
  | .accept multishot => submitAccept multishot
  | .pollRead multishot => submitPollRead multishot
  | .pollWrite multishot => submitPollWrite multishot
  | .read => submitRead
  | .write => submitWrite
  | .readv => submitReadv
  | .writev => submitWritev
  | .recvmsg multishot => submitRecvmsg multishot
  | .sendmsg => submitSendmsg

/-! ### The kernel -/

/-- `io_uring_submit`: the first `n` entries of the queue go to the kernel. -/
def toKernel (n : ℕ) (u : Ring) : Ring :=
  { u with queued := u.queued.drop n, inFlight := u.inFlight ++ u.queued.take n }

/-- The kernel posts a completion of the `k`-th submission it has. Only a multishot can go on. -/
def complete (k : ℕ) (res : ℤ) (more : Bool) (u : Ring) : Ring :=
  match u.inFlight[k]? with
  | none => u
  | some e =>
    { u with
      inFlight := if e.multishot && more then u.inFlight else u.inFlight.eraseIdx k
      completions := u.completions ++ [⟨some e.data, res, e.multishot && more⟩] }

/-- A completion without user data. -/
def stray (res : ℤ) (u : Ring) : Ring := { u with completions := u.completions ++ [⟨none, res, false⟩] }

/-- `io_uring_cq_advance`, by one completion. -/
def advance (u : Ring) : Ring := { u with completions := u.completions.tail }

/-! ### Records -/

/-- A use of the record at an address. -/
def load (p : ℕ) (u : Ring) : Except Fault SubmissionData :=
  match u.heap.find? p with
  | some data => .ok data
  | none => .error .dangling

/-- `delete data`: the `intrusive_ptr` in the record gives its reference up. -/
def delete (p : ℕ) (u : Ring) : Except Fault Ring :=
  match u.heap.find? p, u.heap.free p with
  | some data, some heap => .ok { u.deref data.mgr with heap := heap }
  | _, _ => .error .dangling

end Ring

/-! ### Managers -/

/-- The `intrusive_ptr`s of `managers_` that a call has destroyed give their references up. -/
def settle (before after : UringMultiplexer) : UringMultiplexer :=
  { after with
    derived.refCount := fun mgr => after.derived.refCount mgr -
      (before.managers.elems.count mgr - after.managers.elems.count mgr) }

/-- `multiplexer_base::add`, with an `intrusive_ptr` that somebody holds: it moves into `managers_`, or
is destroyed if the socket is registered already. -/
def add (mgr : Manager) (s : UringMultiplexer) : UringMultiplexer :=
  if mgr ∈ s.derived.held then
    let u := { s.derived with held := s.derived.held.erase mgr }
    let u := if (s.managers.find? mgr.handle).isSome then u.deref mgr else u
    { s.add mgr with derived := u }
  else s

/-- What code on the thread of the multiplexer does: it submits for a manager, changes a mask, sets a
timeout, makes or copies an `intrusive_ptr` and destroys one, adds a manager, and calls `shutdown` or
`handle_error`. An unordered map may order its elements anew at any time. -/
inductive Act where
  | submit (mgr : Manager) (r : Ring.Request)
  | maskSet (mgr : Manager) (mask : Operation)
  | setTimeout (mgr : Manager) (when : ℤ)
  | acquire (mgr : Manager)
  | release (mgr : Manager)
  | add (mgr : Manager)
  | shutdown
  | rehash (order : List Manager)

/-- One act. -/
def perform (act : Act) (s : UringMultiplexer) : Except Fault UringMultiplexer :=
  match act with
  | .submit mgr r => .ok { s with derived := (s.derived.request r mgr).2 }
  | .maskSet mgr mask => .ok (s.maskSet mgr mask)
  | .setTimeout mgr when => .ok (s.setTimeout mgr when).2
  | .acquire mgr => .ok { s with derived := { s.derived.ref mgr with held := mgr :: s.derived.held } }
  | .release mgr =>
    if mgr ∈ s.derived.held then
      .ok { s with derived := { s.derived.deref mgr with held := s.derived.held.erase mgr } }
    else .ok s
  | .add mgr => .ok (add mgr s)
  | .shutdown => (shutdown s).map (settle s)
  | .rehash order => .ok { s with managers := s.managers.rehash order }

/-- Acts, in order. -/
def performAll : List Act → UringMultiplexer → Except Fault UringMultiplexer
  | [], s => .ok s
  | act :: acts, s => perform act s >>= performAll acts

/-! ### The event loop -/

/-- What `handle_completion` of a manager does and returns, for the operation, the result and the
id. -/
abbrev HandleCompletion := Manager → Operation → ℤ → UInt64 → List Act × ManagerResult

/-- The body of the loop of `handle_events`. -/
def handleEvent (handle : HandleCompletion) (c : Cqe) (s : UringMultiplexer) :
    Except Fault UringMultiplexer :=
  match c.data with
  | none => .ok s
  | some p => do
    let data ← s.derived.load p
    let (acts, verdict) := handle data.mgr data.op c.res data.id
    let s ← performAll acts s
    let data ← s.derived.load p
    let s := settle s (handleVerdict data.mgr data.op verdict s)
    let data ← s.derived.load p
    if data.multishot then return s
    else
      let u ← s.derived.delete p
      return { s with derived := u }

/-- One pass of the loop of `handle_events`. -/
def dispatch (handle : HandleCompletion) (s : UringMultiplexer) : Except Fault UringMultiplexer :=
  match s.derived.completions with
  | [] => .ok s
  | c :: _ => do
    let s ← handleEvent handle c s
    return { s with derived := s.derived.advance }

/-- What happens: acts outside of `handle_events`, `io_uring_submit`, completions by the kernel, and
passes of `handle_events`. -/
inductive Event where
  | act (act : Act)
  | submit (n : ℕ)
  | complete (k : ℕ) (res : ℤ) (more : Bool)
  | stray (res : ℤ)
  | dispatch (handle : HandleCompletion)

/-- One event. -/
def step (e : Event) (s : UringMultiplexer) : Except Fault UringMultiplexer :=
  match e with
  | .act act => perform act s
  | .submit n => .ok { s with derived := s.derived.toKernel n }
  | .complete k res more => .ok { s with derived := s.derived.complete k res more }
  | .stray res => .ok { s with derived := s.derived.stray res }
  | .dispatch handle => dispatch handle s

/-- One event of a run that may have ended in a fault. -/
def runStep (s : Except Fault UringMultiplexer) (e : Event) : Except Fault UringMultiplexer :=
  s >>= step e

/-- A multiplexer as it is constructed. -/
def start : UringMultiplexer := MultiplexerBase.init Ring.empty

/-! ### The law -/

/-- **The records are released as they should be**: as many are there as submissions are pending; every
record was deleted once if its submission is not pending, and else not at all; no completion is left
that would use a deleted one; and a manager that is not registered, for which no submission is pending
and which nobody else holds has no references. -/
structure Accounted (s : UringMultiplexer) : Prop where
  live : s.derived.heap.live.length = s.derived.pending.length
  once : ∀ p < s.derived.heap.next,
    s.derived.heap.freed.count p = if p ∈ s.derived.pending then 0 else 1
  unused : ∀ c ∈ s.derived.completions, ∀ p, c.data = some p → p ∈ s.derived.heap.addresses
  unreferenced : ∀ mgr ∉ s.managers.elems, mgr ∉ s.derived.held →
    (∀ p ∈ s.derived.pending, ∀ data, s.derived.heap.find? p = some data → data.mgr ≠ mgr) →
    s.derived.refCount mgr = 0

/-- The law for a run: it also did not use a record that was deleted. -/
def Released : Except Fault UringMultiplexer → Prop
  | .ok s => Accounted s
  | .error _ => False

/-- The event handles the last completion of a multishot submission. -/
def EndsMultishot (u : Ring) : Event → Prop
  | .dispatch _ =>
    ∃ c ∈ u.completions.head?, ∃ p ∈ c.last, ∃ data ∈ u.heap.find? p, data.multishot = true
  | _ => False

end NetworkDriver.Net.Multiplexer.Uring.Records
