import NetworkDriver.Net.Multiplexer.Base

/-! # The kqueue multiplexer

`kqueue_multiplexer` over `multiplexer_base`. A change of the interest in a socket is not made at once:
it is an entry of `update_cache_`, which the next call of `kevent` hands to the kernel.

* `enable`, `disable`, `del`, `delIt`, `add`, `shutdown`: the interface.
* `Kevent.change`: what the kernel makes of an entry. -/

namespace NetworkDriver.Net.Multiplexer.Kqueue.Model

open NetworkDriver.Library.Keyed NetworkDriver.Net.Types NetworkDriver.Net.Multiplexer.Base

/-! ### The kernel -/

/-- The action flags of `kevent`. -/
abbrev KeventFlags := BitVec 16

/-- `EV_ADD`. -/
def evAdd : KeventFlags := 0x0001#16
/-- `EV_DELETE`. -/
def evDelete : KeventFlags := 0x0002#16
/-- `EV_ENABLE`. -/
def evEnable : KeventFlags := 0x0004#16
/-- `EV_DISABLE`. -/
def evDisable : KeventFlags := 0x0008#16

/-- The filters of `kevent`, an `int16_t`. -/
abbrev Filter := ℤ

/-- `EVFILT_READ`. -/
def evfiltRead : Filter := -1
/-- `EVFILT_WRITE`. -/
def evfiltWrite : Filter := -2

/-- The members of `struct kevent` that are set. -/
structure Kevent where
  ident : SocketId
  filter : Filter
  flags : KeventFlags
  deriving DecidableEq, Repr

/-- A filter that sockets have. -/
def Kevent.Valid (e : Kevent) : Prop := e.filter = evfiltRead ∨ e.filter = evfiltWrite

instance (e : Kevent) : Decidable e.Valid := by unfold Kevent.Valid; infer_instance

/-- A filter of a socket after an entry with the flags: `none` if it is not there, and else whether it
is enabled. An entry for a filter that is not there fails, unless it adds it. -/
def after (flags : KeventFlags) (old : Option Bool) : Option Bool :=
  if flags &&& evDelete ≠ 0 then none
  else if flags &&& evAdd ≠ 0 then some (flags &&& evDisable = 0)
  else if flags &&& evDisable ≠ 0 then old.map fun _ => false
  else if flags &&& evEnable ≠ 0 then old.map fun _ => true
  else old

/-- The filters of all sockets. -/
abbrev Filters := SocketId → Filter → Option Bool

/-- The filters after an entry. One that names no filter of a socket fails. -/
def Kevent.change (e : Kevent) (filters : Filters) : Filters := fun ident filter =>
  if e.Valid ∧ ident = e.ident ∧ filter = e.filter then after e.flags (filters ident filter)
  else filters ident filter

/-- The filters after entries, in their order, in a new kqueue. -/
def replay (entries : List Kevent) : Filters := entries.foldl (fun f e => e.change f) fun _ _ => none

/-! ### State -/

/-- `update_cache_`, and the entries that were handed to the kernel before. -/
structure KqueueData where
  updateCache : List Kevent
  submitted : List Kevent
  deriving DecidableEq

/-- `kqueue_multiplexer`. -/
abbrev KqueueMultiplexer := MultiplexerBase KqueueData

/-- All entries that were ever appended. -/
def entries (s : KqueueMultiplexer) : List Kevent := s.derived.submitted ++ s.derived.updateCache

/-! ### Interface functions -/

/-- `to_kevent_filter`. -/
def toKeventFilter (op : Operation) : Filter :=
  if op = Operation.none then 0
  else if op = Operation.read then evfiltRead
  else if op = Operation.write then evfiltWrite
  else 0

/-- `update_cache_.push_back`. -/
def pushBack (e : Kevent) (s : KqueueMultiplexer) : KqueueMultiplexer :=
  { s with derived.updateCache := s.derived.updateCache ++ [e] }

/-- `mod`. -/
def mod (fd : SocketId) (op : KeventFlags) (events : Operation) (s : KqueueMultiplexer) :
    KqueueMultiplexer :=
  -- the two calls for `read` and for `write` meet the other branch
  if events = Operation.readWrite then
    pushBack ⟨fd, toKeventFilter Operation.write, op⟩ (pushBack ⟨fd, toKeventFilter Operation.read, op⟩ s)
  else pushBack ⟨fd, toKeventFilter events, op⟩ s

/-- `enable`. -/
def enable (mgr : Manager) (op : Operation) (s : KqueueMultiplexer) : KqueueMultiplexer :=
  match maskAdd (s.mask mgr) op with
  | none => s
  | some mask => mod mgr.handle evEnable mask (s.maskSet mgr mask)

/-- The part of `del` behind `multiplexer_base::del`. -/
def stopIfLast (s : KqueueMultiplexer) : KqueueMultiplexer :=
  if s.shuttingDown && !s.hasManagers then { s with running := false } else s

/-- `del(socket)`. -/
def del (handle : SocketId) (s : KqueueMultiplexer) : KqueueMultiplexer :=
  stopIfLast ((mod handle evDelete Operation.readWrite s).del handle)

/-- `del(iterator)`. -/
def delIt (mgr : Manager) (s : KqueueMultiplexer) : KqueueMultiplexer :=
  stopIfLast ((mod mgr.handle evDelete Operation.readWrite s).del mgr.handle)

/-- `disable`. -/
def disable (mgr : Manager) (op : Operation) (remove : Bool) (s : KqueueMultiplexer) :
    KqueueMultiplexer :=
  match maskDel (s.mask mgr) op with
  | none => s
  | some mask =>
    let s := mod mgr.handle evDisable op (s.maskSet mgr mask)
    if remove && s.mask mgr = Operation.none then del mgr.handle s else s

/-- `shutdown` on the thread of the multiplexer, which is `handle_error` also. -/
def shutdown (s : KqueueMultiplexer) : Except Fault KqueueMultiplexer :=
  s.shutdownWith (fun mgr s => .ok (disable mgr Operation.readAccept false s))
    (fun mgr s => .ok (delIt mgr s))

/-- The part of `add` before the call of `init`. -/
def register (mgr : Manager) (initial : Operation) (s : KqueueMultiplexer) : KqueueMultiplexer :=
  (enable mgr initial (mod mgr.handle (evAdd ||| evDisable) Operation.readWrite s)).add mgr

/-- `add` on the thread of the multiplexer; `init` is what `init` of the manager does and whether it
succeeded. -/
def add (mgr : Manager) (initial : Operation)
    (init : KqueueMultiplexer → Except Fault (Bool × KqueueMultiplexer)) (s : KqueueMultiplexer) :
    Except Fault KqueueMultiplexer := do
  let (ok, s) ← init (register mgr initial s)
  if ok then return s else shutdown s

/-- The call of `kevent` in `poll_once`, as far as it concerns the entries. -/
def flush (s : KqueueMultiplexer) : KqueueMultiplexer :=
  { s with derived := ⟨[], entries s⟩ }

/-! ### Runs -/

/-- The calls from which everything that happens on the thread of the multiplexer is made: `add` is
`register`, the calls that `init` makes, and `shutdown` if `init` fails. -/
inductive Call where
  | register (mgr : Manager) (initial : Operation)
  | enable (mgr : Manager) (op : Operation)
  | disable (mgr : Manager) (op : Operation) (remove : Bool)
  | del (handle : SocketId)
  | shutdown
  | flush
  | rehash (order : List Manager)

/-- One call. -/
def call (c : Call) (s : KqueueMultiplexer) : Except Fault KqueueMultiplexer :=
  match c with
  | .register mgr initial => .ok (register mgr initial s)
  | .enable mgr op => .ok (enable mgr op s)
  | .disable mgr op remove => .ok (disable mgr op remove s)
  | .del handle => .ok (del handle s)
  | .shutdown => shutdown s
  | .flush => .ok (flush s)
  | .rehash order => .ok { s with managers := s.managers.rehash order }

/-- One call of a run that may have ended in a fault. -/
def runStep (s : Except Fault KqueueMultiplexer) (c : Call) : Except Fault KqueueMultiplexer :=
  s >>= call c

/-- A multiplexer whose `init` has made the pipe and is about to add the updater. -/
def start (pipeReader pipeWriter : SocketId) : KqueueMultiplexer :=
  { MultiplexerBase.init ⟨[], []⟩ with pipeReader := pipeReader, pipeWriter := pipeWriter }

/-- `add`, with an `init` that makes calls, is a run. -/
theorem add_eq_run (mgr : Manager) (initial : Operation) (calls : List Call) (ok : Bool)
    (s : KqueueMultiplexer) :
    add mgr initial (fun s => (calls.foldl runStep (.ok s)).map (ok, ·)) s =
      (.register mgr initial :: (calls ++ if ok then [] else [.shutdown])).foldl runStep (.ok s) := by
  rw [List.foldl_cons, List.foldl_append]
  change (calls.foldl runStep (.ok (register mgr initial s))).map (ok, ·) >>= _ =
    (if ok then [] else [Call.shutdown]).foldl runStep
      (calls.foldl runStep (.ok (register mgr initial s)))
  generalize calls.foldl runStep (.ok (register mgr initial s)) = result
  cases result with
  | error fault => cases ok <;> rfl
  | ok s' => cases ok <;> rfl

end NetworkDriver.Net.Multiplexer.Kqueue.Model
