import NetworkDriver.Net.Multiplexer.Epoll.Dispatch
import NetworkDriver.Net.Multiplexer.Epoll.Shutdown
import NetworkDriver.Net.Multiplexer.Uring.Shutdown

/-! # Graceful shutdown of the epoll and the io_uring multiplexer

The runs of the event loop of both backends, from any state in which `start` has set the loop running.

* `graceful_shutdown_iff`: the law of a graceful shutdown holds in a run if and only if its history is
  orderly.
* `graceful_shutdown_broken`: `shutdown` stops the loop while managers are left, and io_uring goes on
  without managers. -/

namespace NetworkDriver.Net.Multiplexer.GracefulShutdown

open NetworkDriver.Library.Keyed NetworkDriver.Net.Types NetworkDriver.Net.Multiplexer.Base
open NetworkDriver.Net.Multiplexer.Shutdown NetworkDriver.Net.Multiplexer.Epoll.Model
open NetworkDriver.Net.Multiplexer.Uring.Shutdown (UringBase)

/-- **Graceful shutdown**: in every run of the event loop, once the multiplexer is shutting down every
removal leaves the loop stopped iff it leaves no manager, if and only if no `shutdown` of the running
loop finds an idle manager and, under io_uring, no removal of the last manager goes past the check. -/
theorem graceful_shutdown_iff (κ : Type) (ctl : EpollCtl κ) (depth : ℕ) (polls : List Poll)
    (s s' : EpollMultiplexer κ) (uringPolls : List Uring.Shutdown.Poll) (u u' : UringBase) :
    (s.running = true → s.history = {} → run ctl depth polls s = .ok s' →
      (Lawful s'.history ↔ Orderly s'.history)) ∧
    (u.running = true → u.history = {} → Uring.Shutdown.run uringPolls u = .ok u' →
      (Lawful u'.history ↔ Orderly u'.history)) := by
  constructor
  · intro hr hh h
    exact (Epoll.Shutdown.run_between (between_start hr hh) h).1
  · intro hr hh h
    exact (Uring.Shutdown.run_between (between_start hr hh) h).1

/-- A running multiplexer with a pipe reader on socket 3 and managers on 4 and 5. -/
def serving {δ : Type} (derived : δ) (mask mask' : Operation) : MultiplexerBase δ :=
  let s := { MultiplexerBase.init derived with running := true, pipeReader := 3 }
  ((((s.add ⟨0, 3⟩).add ⟨1, 4⟩).add ⟨2, 5⟩).maskSet ⟨0, 3⟩ Operation.read).maskSet ⟨1, 4⟩ mask
    |>.maskSet ⟨2, 5⟩ mask'

/-- The pipe reader gets the code for a shutdown. -/
def shutdownRequested : Event := ⟨3, epollIn, ⟨[.shutdown], .done⟩, ⟨[], .ok⟩⟩

/-- The other managers fail while they write. -/
def writeFails (fd : SocketId) : Event := ⟨fd, epollOut, ⟨[], .ok⟩, ⟨[], .error⟩⟩

/-- The events of one iteration, under epoll. -/
def reported (events : List Event) : List Poll := [.events (fun _ => 0) (fun _ => []) events]

/-- The completions of one iteration, under io_uring. -/
def completed (completions : List Uring.Shutdown.Completion) : List Uring.Shutdown.Poll :=
  [.completions (fun _ => 0) (fun _ => []) completions]

/-- Two managers that write are served until they are gone. -/
theorem graceful_shutdown_iff_drained :
    (∃ s', run Epoll.Dispatch.listCtl 1
        (reported [shutdownRequested, writeFails 4] ++ reported [writeFails 5])
        (serving ⟨[3, 4, 5], []⟩ Operation.readWrite Operation.write) = .ok s' ∧
      (Lawful s'.history ↔ Orderly s'.history)) ∧
    ∃ s', Uring.Shutdown.run (completed [⟨⟨0, 3⟩, Operation.read, [.shutdown], .done⟩])
        (serving () Operation.readWrite Operation.write) = .ok s' ∧
      (Lawful s'.history ↔ Orderly s'.history) := by
  constructor
  · exact ⟨_, rfl, (graceful_shutdown_iff _ Epoll.Dispatch.listCtl 1
      (reported [shutdownRequested, writeFails 4] ++ reported [writeFails 5])
      (serving ⟨[3, 4, 5], []⟩ Operation.readWrite Operation.write) _ [] (serving () 0 0)
      (serving () 0 0)).1 rfl rfl rfl⟩
  · exact ⟨_, rfl, (graceful_shutdown_iff _ Epoll.Dispatch.listCtl 1 [] (serving ⟨[], []⟩ 0 0)
      (serving ⟨[], []⟩ 0 0) (completed [⟨⟨0, 3⟩, Operation.read, [.shutdown], .done⟩])
      (serving () Operation.readWrite Operation.write) _).2 rfl rfl rfl⟩

/-- **The law is broken**: `shutdown` removes an idle manager and stops the loop, although the pipe
reader and a manager that writes are left; and under io_uring the loop goes on when the last manager is
done. -/
theorem graceful_shutdown_broken :
    (∃ s', run Epoll.Dispatch.listCtl 1 (reported [shutdownRequested])
        (serving ⟨[3, 4, 5], []⟩ Operation.read Operation.readWrite) = .ok s' ∧
      ¬ Lawful s'.history ∧ s'.running = false ∧ s'.managers.elems = [⟨2, 5⟩]) ∧
    ∃ s', Uring.Shutdown.run (completed [⟨⟨0, 3⟩, Operation.read, [.shutdown], .done⟩,
          ⟨⟨1, 4⟩, Operation.write, [], .done⟩, ⟨⟨2, 5⟩, Operation.write, [], .error⟩])
        (serving () Operation.write Operation.write) = .ok s' ∧
      ¬ Lawful s'.history ∧ s'.running = true ∧ s'.managers.elems = [] := by
  constructor
  · refine ⟨_, rfl, fun hl => ?_, rfl, rfl⟩
    exact absurd (hl ⟨true, false, false⟩ (by decide +kernel) rfl) (by decide)
  · refine ⟨_, rfl, fun hl => ?_, rfl, rfl⟩
    exact absurd (hl ⟨true, true, true⟩ (by decide +kernel) rfl) (by decide)

end NetworkDriver.Net.Multiplexer.GracefulShutdown
