import NetworkDriver.Library.Run
import NetworkDriver.Net.Multiplexer.Base

/-! # The io_uring multiplexer

The interface functions of `uring_multiplexer` over `multiplexer_base`. What a manager does in its
`enable`, its `init` and its `handle_completion` is a parameter; the submissions belong to the managers
and to the ring, which is part of `δ`.

* `enableWith`, `disable`, `shutdown`, `add`: the interface.
* `shutdown_eq_ok`: a `shutdown` visits every manager and ends.
* `handleVerdict`: what `handle_events` does with the verdict of a completion. -/

namespace NetworkDriver.Net.Multiplexer.Uring.Model

open NetworkDriver.Library.Keyed NetworkDriver.Net.Types NetworkDriver.Net.Multiplexer.Base

/-! ### Interface functions -/

/-- `enable`, on a state that has the mask of the manager; `virt` is `uring_mgr.enable(op)`. -/
def enableWith {m : Type → Type} [Monad m] {σ : Type} (mask : σ → Operation)
    (maskSet : Operation → σ → σ) (virt : σ → m (ManagerResult × σ)) (op : Operation) (s : σ) : m σ :=
  match maskAdd (mask s) op with
  | none => pure s
  | some new => do
    let (res, s) ← virt (maskSet new s)
    if res = .ok then return s
    else
      match maskDel (mask s) op with
      | none => return s
      | some old => return maskSet old s

variable {δ : Type}

/-- `disable`. -/
def disable (mgr : Manager) (op : Operation) (remove : Bool) (s : MultiplexerBase δ) :
    MultiplexerBase δ :=
  match maskDel (s.mask mgr) op with
  | none => s
  | some mask =>
    let s := s.maskSet mgr mask
    if remove && s.mask mgr = Operation.none then s.delQualified mgr.handle else s

/-- `shutdown` on the thread of the multiplexer, which is `handle_error` also. -/
def shutdown (s : MultiplexerBase δ) : Except Fault (MultiplexerBase δ) :=
  s.shutdownWith (fun mgr s => .ok (disable mgr Operation.readAccept false s))
    (fun mgr s => .ok (s.eraseIt mgr))

/-- A round of the loop of `shutdown`. -/
def visit (s : MultiplexerBase δ) (mgr : Manager) : MultiplexerBase δ :=
  s.visit (fun mgr => disable mgr Operation.readAccept false) (fun mgr s => s.eraseIt mgr) mgr

/-- Without `remove`, `disable` erases nobody. -/
theorem disable_managers (mgr : Manager) (op : Operation) (s : MultiplexerBase δ) :
    (disable mgr op false s).managers = s.managers := by
  unfold disable
  cases maskDel (s.mask mgr) op with
  | none => rfl
  | some mask => rfl

/-- **`shutdown` ends regularly**, after a round for every manager. -/
theorem shutdown_eq_ok (s : MultiplexerBase δ) :
    shutdown s = .ok { s.managers.elems.foldl visit { s.logShutdown with shuttingDown := true } with
      pipeWriter := invalidSocketId } := by
  have hstay : ∀ (s : MultiplexerBase δ) (mgr : Manager), mgr ∈ s.managers.elems →
      mgr ∈ (disable mgr Operation.readAccept false s).managers.elems := by
    intro s mgr hmgr
    rw [disable_managers]
    exact hmgr
  exact MultiplexerBase.shutdownWith_eq_ok hstay s

/-- `add` on the thread of the multiplexer. Where the socket is registered already, the manager that is
there takes the part of the new one. `init` answers whether it succeeded. -/
def add (mgr : Manager) (init : Manager → MultiplexerBase δ → Except Fault (Bool × MultiplexerBase δ))
    (enable : Manager → MultiplexerBase δ → Except Fault (MultiplexerBase δ)) (s : MultiplexerBase δ) :
    Except Fault (MultiplexerBase δ) := do
  let s := s.add mgr
  let added := (s.managers.find? mgr.handle).getD mgr
  let (ok, s) ← init added s
  (if ok then Except.ok s else shutdown s) >>= fun s =>
    if added ∈ s.managers.elems then enable added s else .error .dangling

/-- The verdict of `handle_completion` in `handle_events`. The record of the submission holds a
reference to the manager, so it is there even if it is not registered any more. -/
def handleVerdict (mgr : Manager) (op : Operation) (verdict : ManagerResult) (s : MultiplexerBase δ) :
    MultiplexerBase δ :=
  match verdict with
  | .ok => s
  | .temporaryError => disable mgr op true s
  | .done => disable mgr op true s
  | .error => s.delQualified mgr.handle

end NetworkDriver.Net.Multiplexer.Uring.Model
