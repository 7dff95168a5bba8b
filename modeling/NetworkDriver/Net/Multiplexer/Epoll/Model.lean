import NetworkDriver.Library.Run
import NetworkDriver.Net.Multiplexer.Base

/-! # The epoll multiplexer

`epoll_multiplexer` over `multiplexer_base`. The kernel is a type `κ` with `epoll_ctl` on it, which may
fail at any call; a failure is handled by `shutdown`, which calls `epoll_ctl` again, so `shutdown` is
defined up to a depth of nesting. A handler is what it does (`Act`s, in order) and what it returns.

* `shutdown`, `enable`, `disable`, `del`, `delIt`, `add`: the interface.
* `handleEvents`: the dispatch of a batch of events.
* `loopStep`: one iteration of the event loop. -/

namespace NetworkDriver.Net.Multiplexer.Epoll.Model

open NetworkDriver.Library.Keyed NetworkDriver.Net.Types NetworkDriver.Net.Multiplexer.Base

/-! ### The kernel -/

/-- `EPOLL_CTL_ADD`, `EPOLL_CTL_MOD` and `EPOLL_CTL_DEL`. -/
inductive CtlOp where
  | add
  | mod
  | del
  deriving DecidableEq, Repr

/-- The event flags of epoll. -/
abbrev EpollFlags := BitVec 32

/-- `EPOLLIN`. -/
def epollIn : EpollFlags := 0x001#32
/-- `EPOLLOUT`. -/
def epollOut : EpollFlags := 0x004#32
/-- `EPOLLERR`. -/
def epollErr : EpollFlags := 0x008#32
/-- `EPOLLHUP`. -/
def epollHup : EpollFlags := 0x010#32
/-- `EPOLLRDHUP`. -/
def epollRdHup : EpollFlags := 0x2000#32

/-- `epoll_ctl`, on a kernel `κ`: whether it succeeded, and the kernel after it. -/
abbrev EpollCtl (κ : Type) := κ → CtlOp → SocketId → EpollFlags → Bool × κ

/-! ### State -/

/-- What `handle_events` did with the verdict of a handler, `operation::read` for the read handler and
`operation::write` for the write handler: the mask of the manager before and after it. -/
structure Dispatch where
  mgr : Manager
  handler : Operation
  verdict : ManagerResult
  before : Operation
  after : Operation
  deriving DecidableEq, Repr

/-- The kernel, and what was dispatched in the last batch. -/
structure EpollData (κ : Type) where
  kernel : κ
  dispatches : List Dispatch := []

/-- `epoll_multiplexer`. -/
abbrev EpollMultiplexer (κ : Type) := MultiplexerBase (EpollData κ)

variable {κ : Type}

/-! ### Interface functions -/

/-- `to_epoll_flag`. -/
def toEpollFlag (op : Operation) : EpollFlags :=
  if op = Operation.none then 0
  else if op = Operation.read then epollIn
  else if op = Operation.write then epollOut
  else if op = Operation.readWrite then epollIn ||| epollOut
  else 0

section Interface

-- `onError` is `handle_error`
variable (ctl : EpollCtl κ) (onError : EpollMultiplexer κ → Except Fault (EpollMultiplexer κ))

/-- `mod`. -/
def mod (fd : SocketId) (op : CtlOp) (events : Operation) (s : EpollMultiplexer κ) :
    Except Fault (EpollMultiplexer κ) :=
  let res := ctl s.derived.kernel op fd (toEpollFlag events)
  let s := { s with derived.kernel := res.2 }
  if res.1 then .ok s else onError s

/-- `enable`. -/
def enable (mgr : Manager) (op : Operation) (s : EpollMultiplexer κ) :
    Except Fault (EpollMultiplexer κ) :=
  match maskAdd (s.mask mgr) op with
  | none => .ok s
  | some mask => mod ctl onError mgr.handle .mod mask (s.maskSet mgr mask)

/-- The part of `del(socket)` behind `mod`. Only a manager that was there is removed. -/
def erased (handle : SocketId) (s : EpollMultiplexer κ) : EpollMultiplexer κ :=
  let found := (s.managers.find? handle).isSome
  let s := s.del handle
  let s := if s.shuttingDown && !s.hasManagers then { s with running := false } else s
  if found then s.logRemoval else s

/-- `del(socket)`. -/
def del (handle : SocketId) (s : EpollMultiplexer κ) : Except Fault (EpollMultiplexer κ) := do
  let s ← mod ctl onError handle .del Operation.none s
  return erased handle s

/-- `del(iterator)`. -/
def delIt (mgr : Manager) (s : EpollMultiplexer κ) : Except Fault (EpollMultiplexer κ) := do
  let s ← mod ctl onError mgr.handle .del Operation.none s
  if mgr ∈ s.managers.elems then return s.eraseIt mgr else .error .dangling

/-- `disable`. -/
def disable (mgr : Manager) (op : Operation) (remove : Bool) (s : EpollMultiplexer κ) :
    Except Fault (EpollMultiplexer κ) :=
  match maskDel (s.mask mgr) op with
  | none => .ok s
  | some mask => do
    let s ← mod ctl onError mgr.handle .mod mask (s.maskSet mgr mask)
    if remove then
      if mgr ∈ s.managers.elems then
        if s.mask mgr = Operation.none then del ctl onError mgr.handle s else return s
      else .error .dangling
    else return s

/-- `add`; `init` is `mgr->init(cfg())` and answers whether it succeeded. -/
def add (mgr : Manager) (initial : Operation)
    (init : EpollMultiplexer κ → Except Fault (Bool × EpollMultiplexer κ)) (s : EpollMultiplexer κ) :
    Except Fault (EpollMultiplexer κ) := do
  let s ← mod ctl onError mgr.handle .add initial (s.maskSet mgr initial)
  let (ok, s) ← init (s.add mgr)
  if ok then return s else onError s

/-- `manager_base::register_reading` and `register_writing`, by the operation registered for. -/
def register (mgr : Manager) (op : Operation) (s : EpollMultiplexer κ) :
    Except Fault (EpollMultiplexer κ) :=
  if s.mask mgr &&& op = Operation.none then enable ctl onError mgr op s else .ok s

end Interface

@[simp] theorem erased_managers (handle : SocketId) (s : EpollMultiplexer κ) :
    (erased handle s).managers = s.managers.erase handle := by
  unfold erased
  dsimp only
  split_ifs <;> rfl

@[simp] theorem erased_mask (handle : SocketId) (s : EpollMultiplexer κ) :
    (erased handle s).mask = s.mask := by
  unfold erased
  dsimp only
  split_ifs <;> rfl

@[simp] theorem erased_pipeReader (handle : SocketId) (s : EpollMultiplexer κ) :
    (erased handle s).pipeReader = s.pipeReader := by
  unfold erased
  dsimp only
  split_ifs <;> rfl

@[simp] theorem erased_derived (handle : SocketId) (s : EpollMultiplexer κ) :
    (erased handle s).derived = s.derived := by
  unfold erased
  dsimp only
  split_ifs <;> rfl

/-- `shutdown` on the thread of the multiplexer, which is `handle_error` also, up to a depth of
nesting. -/
def shutdown (ctl : EpollCtl κ) : ℕ → EpollMultiplexer κ → Except Fault (EpollMultiplexer κ)
  | 0, _ => .error .tooDeep
  | depth + 1, s =>
    s.shutdownWith (fun mgr => disable ctl (shutdown ctl depth) mgr Operation.readAccept false)
      (delIt ctl (shutdown ctl depth))

/-! ### Handlers -/

/-- What a handler may do: registrations, timeouts, new managers with what their `init` does and
whether it fails, `handle_error` or `shutdown`. An unordered map may order its elements anew at any
time. -/
inductive Act where
  | registerReading (mgr : Manager)
  | registerWriting (mgr : Manager)
  | setTimeout (mgr : Manager) (when : ℤ)
  | add (mgr : Manager) (initial : Operation) (init : List Act) (fails : Bool)
  | shutdown
  | rehash (order : List Manager)

/-- A handler: what it does and what it returns. -/
structure Handler where
  acts : List Act
  verdict : ManagerResult

section Handlers

variable (ctl : EpollCtl κ) (depth : ℕ)

mutual

/-- One act of a handler. -/
def perform : Act → EpollMultiplexer κ → Except Fault (EpollMultiplexer κ)
  | .registerReading mgr, s => register ctl (shutdown ctl depth) mgr Operation.read s
  | .registerWriting mgr, s => register ctl (shutdown ctl depth) mgr Operation.write s
  | .setTimeout mgr when, s => .ok (s.setTimeout mgr when).2
  | .add mgr initial init fails, s =>
    add ctl (shutdown ctl depth) mgr initial
      (fun s => (performAll init s).map fun s => (!fails, s)) s
  | .shutdown, s => shutdown ctl depth s
  | .rehash order, s => .ok { s with managers := s.managers.rehash order }

/-- The acts of a handler, in order. -/
def performAll : List Act → EpollMultiplexer κ → Except Fault (EpollMultiplexer κ)
  | [], s => .ok s
  | act :: acts, s => perform act s >>= performAll acts

end

/-! ### The event loop -/

/-- An event that `epoll_wait` reports, with what the handlers do that it leads to. -/
structure Event where
  fd : SocketId
  flags : EpollFlags
  onRead : Handler
  onWrite : Handler

/-- The lambda `handle_result` of `handle_events`: whether the event is processed further. -/
def handleResult (mgr : Manager) (res : ManagerResult) (op : Operation) (s : EpollMultiplexer κ) :
    Except Fault (Bool × EpollMultiplexer κ) :=
  match res with
  | .done =>
    if mgr ∈ s.managers.elems then (disable ctl (shutdown ctl depth) mgr op true s).map (true, ·)
    else .error .dangling
  | .error =>
    if mgr ∈ s.managers.elems then (del ctl (shutdown ctl depth) mgr.handle s).map (false, ·)
    else .error .dangling
  | _ => .ok (true, s)

/-- A handler of `mgr` is called and its verdict is handled; `kind` says which handler it is, and `op`
is the operation that `handle_result` gets. -/
def dispatch (mgr : Manager) (handler : Handler) (kind op : Operation) (s : EpollMultiplexer κ) :
    Except Fault (Bool × EpollMultiplexer κ) := do
  let s ← performAll ctl depth handler.acts s
  let (further, s') ← handleResult ctl depth mgr handler.verdict op s
  return (further, { s' with
    derived.dispatches := s'.derived.dispatches ++
      [⟨mgr, kind, handler.verdict, s.mask mgr, s'.mask mgr⟩] })

/-- The write part of an event. -/
def handleWrite (mgr : Manager) (event : Event) (s : EpollMultiplexer κ) :
    Except Fault (EpollMultiplexer κ) :=
  if event.flags &&& epollOut = epollOut then
    if mgr ∈ s.managers.elems then
      (dispatch ctl depth mgr event.onWrite Operation.write Operation.read s).map Prod.snd
    else .error .dangling
  else .ok s

/-- The body of the loop of `handle_events`. -/
def handleEvent (event : Event) (s : EpollMultiplexer κ) : Except Fault (EpollMultiplexer κ) :=
  if event.flags = epollHup ||| epollRdHup ||| epollErr then del ctl (shutdown ctl depth) event.fd s
  else
    match s.managers.find? event.fd with
    | none => .ok s
    | some mgr =>
      if event.flags &&& epollIn = epollIn then do
        let (further, s) ← dispatch ctl depth mgr event.onRead Operation.read Operation.read s
        if further then handleWrite ctl depth mgr event s else return s
      else handleWrite ctl depth mgr event s

/-- The loop of `handle_events`. -/
def eventLoop : List Event → EpollMultiplexer κ → Except Fault (EpollMultiplexer κ)
  | [], s => .ok s
  | event :: events, s => handleEvent ctl depth event s >>= eventLoop events

/-- `handle_events`. -/
def handleEvents (events : List Event) (s : EpollMultiplexer κ) :
    Except Fault (EpollMultiplexer κ) :=
  eventLoop ctl depth events { s with derived.dispatches := [] }

/-- What `epoll_wait` answers: an error, of which `EINTR` is none, or events; then the readings of the
clock and the acts of the timeout handlers in the call of `handle_timeouts`. -/
inductive Poll where
  | failed (interrupted : Bool)
  | events (now : ℕ → ℤ) (onTimeout : ℕ → List Act) (events : List Event)

/-- `poll_once`: whether it returns an error. -/
def pollOnce (poll : Poll) (s : EpollMultiplexer κ) : Except Fault (Bool × EpollMultiplexer κ) :=
  match poll with
  | .failed interrupted => .ok (!interrupted, s)
  | .events now onTimeout events => do
    let s ← s.handleTimeouts (fun k _ _ => performAll ctl depth (onTimeout k)) now
    let s ← handleEvents ctl depth events s
    return (false, s)

/-- One iteration of the loop of `run`. -/
def loopStep (poll : Poll) (s : EpollMultiplexer κ) : Except Fault (EpollMultiplexer κ) :=
  if s.running then
    (pollOnce ctl depth poll s).map fun x => if x.1 then { x.2 with running := false } else x.2
  else .ok s

/-- `run`. -/
def run : List Poll → EpollMultiplexer κ → Except Fault (EpollMultiplexer κ)
  | [], s => .ok s
  | poll :: polls, s => loopStep ctl depth poll s >>= run polls

end Handlers

end NetworkDriver.Net.Multiplexer.Epoll.Model
